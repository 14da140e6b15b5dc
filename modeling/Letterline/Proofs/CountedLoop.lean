/-
Module: Letterline.Proofs.CountedLoop
Purpose: A loop that counts up to a bound runs its body once for every number on the way.
Trusted boundary: none
Main exports:
  Session.BodyBegins, Session.BodyBegins.unique, Session.BodyProceeds, Store.LeftAsIs.lookup,
  Store.Counts, Instruction.counting, Session.Counted, Session.runs_counted
-/
import Letterline.Proofs.Comparison
import Letterline.Proofs.CompoundAssignment
import Letterline.Proofs.ForLoop
import Letterline.Proofs.IntegerArithmetic
import Letterline.Proofs.Isolation
import Letterline.Proofs.Sequence

namespace Letterline

/-!
The body of a loop runs in a frame of its own, in which the update runs too.  A body that does
not write the counted variable leaves it as it was, whatever it declares and removes in frames
further inside, so each turn finds the number that the turn before has left.  The numbers are
counted and compared as doubles.  That is exact, and as a number below the bound is not the
highest integer, counting it up never stops short.
-/

/-! ### When the body of a loop begins -/

namespace Instruction

open Execution

/-- A turn of a loop with a head: the body and the update, in one frame. -/
def turnOf (update body : List Instruction) (limit : Nat) : Execution :=
  .inFrame (.andThen (executeAll limit body) (executeAll limit update))

end Instruction

namespace Session

open Dialogue

variable {σ : Type} {console : Console σ} {session : Session σ}

/-- In a run of a loop with a head the body begins in this session, when it has run for `count`
times: the head and as many turns came to their end, the condition held after them, and a frame
was opened. -/
inductive BodyBegins (console : Console σ) (session : Session σ) :
    Instruction → Nat → Session σ → Prop where
  | intro {init update body : List Instruction} {condition : Condition} {span : Span} {count : Nat}
      {entered before : Session σ} {world : σ} {record further asked : List Exchange}
      (head : session.push.Ends console (Instruction.executeAll · init) .proceeds entered record)
      (turns : entered.AfterTurns console condition.evaluate (Instruction.turnOf update body) count
        before further)
      (truth : EndsOn console (condition.evaluate before.store).run before.world (.ok true) world
        asked) :
      BodyBegins console session (.forLoop init condition update body span) count
        (Session.mk before.store world).push

/-- Each time that the body of a loop begins it comes to its end. -/
def BodyProceeds (console : Console σ) (loop : Instruction) (body : List Instruction)
    (session : Session σ) : Prop :=
  ∀ count start, session.BodyBegins console loop count start →
    ∃ after record, start.Ends console (Instruction.executeAll · body) .proceeds after record

variable {init update body : List Instruction} {condition : Condition} {span : Span} {count : Nat}

/-- It begins for that time in one session only. -/
theorem BodyBegins.unique {loop : Instruction} {start other : Session σ}
    (begins : session.BodyBegins console loop count start)
    (others : session.BodyBegins console loop count other) : start = other := by
  cases begins with
  | intro head turns truth =>
      cases others with
      | intro otherHead otherTurns otherTruth =>
          obtain ⟨-, rfl, -⟩ := head.unique otherHead
          obtain ⟨rfl, -⟩ := turns.unique otherTurns
          obtain ⟨-, rfl, -⟩ := truth.unique otherTruth
          rfl

/-- Where the condition does not hold after some turns, the body has not begun for a further
time. -/
theorem BodyBegins.lt_of_over {entered last start : Session σ} {turns : Nat} {world : σ}
    {record further asked : List Exchange}
    (begins : session.BodyBegins console (.forLoop init condition update body span) count start)
    (head : session.push.Ends console (Instruction.executeAll · init) .proceeds entered record)
    (taken : entered.AfterTurns console condition.evaluate (Instruction.turnOf update body) turns
      last further)
    (untrue : EndsOn console (condition.evaluate last.store).run last.world (.ok false) world
      asked) :
    count < turns := by
  cases begins with
  | intro otherHead soFar truth =>
      obtain ⟨-, rfl, -⟩ := head.unique otherHead
      refine Nat.lt_of_le_of_ne (taken.le_of_over untrue soFar) ?_
      rintro rfl
      obtain ⟨rfl, -⟩ := taken.unique soFar
      obtain ⟨impossible, -⟩ := untrue.unique truth
      cases impossible

end Session

/-! ### Numbers -/

namespace Scalar

theorem compare_less_int (a b : Int32) :
    (int a).compare .less (int b) = .ok (decide (a.toInt < b.toInt)) := by
  have alike : (int a).kind = (int b).kind := rfl
  exact compare_of_integers alike rfl rfl .less

/-- Counting up an integer below another one is exact. -/
theorem exists_successor {value bound : Int32} (below : value.toInt < bound.toInt) :
    ∃ next : Int32, next.toInt = value.toInt + 1 ∧
      absorb (some (.int value)) (some (.int 1)) .plus = .ok (some (.int next)) := by
  have left : (int value).integer? = some value.toInt := rfl
  have right : (int 1).integer? = some 1 := rfl
  refine ⟨saturated (value.toInt + 1), ?_, ?_⟩
  · have lowest := value.minValue_le_toInt
    have highest := bound.toInt_le
    rw [toInt_saturated]
    omega
  · rw [absorb_some, combine_of_integers .plus left right (Or.inl rfl), if_neg nofun]
    rfl

end Scalar

/-! ### Stores that count -/

namespace Store

variable {name : String} {value next : Int32} {store before inner : Store}

/-- A name that is left as it was shows the variable that it did. -/
theorem LeftAsIs.lookup {after : Store} (left : LeftAsIs name before after) :
    after.lookup? name = before.lookup? name := by
  have first (store : Store) :
      store.lookup? name = (store.table.filter (·.name = name)).head? := by
    rw [List.head?_filter, lookup?]
    rfl
  rw [first, first, left.entries]

/-- A variable of the top frame holds an integer. -/
structure Counts (name : String) (value : Int32) (store : Store) : Prop where
  holds : store.lookup? name = some ⟨name, .ofScalar (.int value)⟩
  owned : name ∈ store.topNames

namespace Counts

theorem declare (name : String) (value : Int32) (store : Store) :
    Counts name value (store.declare name (.ofScalar (.int value))) where
  holds := by rw [lookup_declare, if_pos rfl]
  owned := (mem_head_record store.frames).mpr (Or.inl rfl)

/-- What a frame leaves as it was, and is given another number inside it, counts on. -/
theorem turn (counts : Counts name value before) (left : LeftAsIs name before.push inner) :
    Counts name next (inner.set name (.ofScalar (.int next))).pop := by
  have inside : inner.lookup? name = some ⟨name, .ofScalar (.int value)⟩ :=
    left.lookup.trans counts.holds
  have outside : name ∉ (inner.set name (.ofScalar (.int next))).topNames :=
    fun owned => nomatch left.owned.mp owned
  constructor
  · have declared : inner.isDeclared name := by rw [isDeclared, inside]; rfl
    rw [lookup_pop, if_neg outside, lookup_set, if_pos ⟨rfl, declared⟩]
  · have below : (inner.set name (.ofScalar (.int next))).pop.frames = before.frames :=
      frames_pop.trans left.below
    rw [topNames, below]
    exact counts.owned

end Counts
end Store

/-! ### The parts of a counted loop -/

section Parts

open Store

variable {name : String} {value bound : Int32} {store : Store}

/-- The literal of an integer. -/
def Value.integer (value : Int32) : Value :=
  .ofParts [⟨.none, .literal (.int value)⟩]

/-- The comparison that a counted variable is below a number. -/
def Condition.countedBelow (name : String) (bound : Int32) : Condition :=
  .compare (.ofParts [⟨.none, .variable name⟩]) .less (.integer bound)

theorem Condition.evaluate_countedBelow (counts : Counts name value store) :
    (countedBelow name bound).evaluate store = pure (decide (value.toInt < bound.toInt)) := by
  have left : (Value.ofParts [⟨.none, .variable name⟩]).result store = pure (.int value) :=
    Value.result_variable counts.holds rfl .none []
  have right : (Value.integer bound).result store = pure (.int bound) := rfl
  rw [countedBelow, evaluate, left, right, pure_bind, pure_bind, Scalar.compare_less_int]
  rfl

theorem Modification.newValue_increment {next : Int32}
    (found : store.lookup? name = some ⟨name, .ofScalar (.int value)⟩)
    (successor : Scalar.absorb (some (.int value)) (some (.int 1)) .plus =
      .ok (some (.int next))) :
    increment.newValue name store = pure (.ofScalar (.int next)) := by
  have chain : (increment.apply store (.ofScalar (.int value)) : Evaluation Value) =
      (Evaluation.ofExcept (Scalar.absorb (some (.int value)) (some (.int 1)) .plus)).bind
        fun joined => pure (.ofScalar (joined.getD (.string ""))) := rfl
  rw [newValue, found]
  exact chain.trans (by rw [successor]; rfl)

/-- A loop that counts a variable up from one number to below another. -/
def Instruction.counting (name : String) (first bound : Int32) (body : List Instruction)
    (initSpan updateSpan span : Span) : Instruction :=
  .forLoop [.declare name (.integer first) initSpan] (.countedBelow name bound)
    [.modify name .increment updateSpan] body span

end Parts

/-! ### Runs of a counted loop -/

namespace Session

open Dialogue Instruction

variable {σ : Type} {console : Console σ} {session before start : Session σ} {name : String}
  {first bound value : Int32} {body : List Instruction} {initSpan updateSpan span : Span}
  {record : List Exchange}

/-- The session in which the first turn of a counted loop begins. -/
def counting (name : String) (first : Int32) (session : Session σ) : Session σ :=
  ⟨session.store.push.declare name (.ofScalar (.int first)), session.world⟩

theorem ends_counting (console : Console σ) (session : Session σ) (name : String) (first : Int32)
    (initSpan : Span) :
    session.push.Ends console (executeAll · [.declare name (.integer first) initSpan]) .proceeds
      (session.counting name first) [] :=
  .of_done nofun fun _ => rfl

/-- The condition of a counted loop says nothing on the console. -/
theorem endsOn_countedBelow (console : Console σ) (counts : before.store.Counts name value)
    (bound : Int32) :
    EndsOn console ((Condition.countedBelow name bound).evaluate before.store).run before.world
      (.ok (decide (value.toInt < bound.toInt))) before.world [] := by
  rw [Condition.evaluate_countedBelow counts]
  exact .done console _ _

/-- A body that does not write a name leaves it as it was. -/
theorem Ends.leftAsIs {after : Session σ} {ending : Ending}
    (ends : session.Ends console (executeAll · body) ending after record)
    (unwritten : name ∉ writtenNamesIn body) :
    Store.LeftAsIs name session.store after.store := by
  obtain ⟨limit, reached⟩ := ends.exists_mayEnd
  exact (keeps_executeAll (Store.preserves_leftAsIs name) body fun other written same =>
    unwritten (same ▸ written)).on reached

/-- A turn of a counted loop counts on. -/
theorem ends_turnOf (counts : before.store.Counts name value)
    (below : value.toInt < bound.toInt) (unwritten : name ∉ writtenNamesIn body) {inner : Session σ}
    (bodyEnds : before.push.Ends console (executeAll · body) .proceeds inner record) :
    ∃ after next, before.Ends console (turnOf [.modify name .increment updateSpan] body) .proceeds
        after record ∧
      next.toInt = value.toInt + 1 ∧ after.store.Counts name next := by
  obtain ⟨next, follows, successor⟩ := Scalar.exists_successor below
  have left := bodyEnds.leftAsIs unwritten
  have inside : inner.store.lookup? name = some ⟨name, .ofScalar (.int value)⟩ :=
    left.lookup.trans counts.holds
  have updateEnds : inner.Ends console (executeAll · [.modify name .increment updateSpan]) .proceeds
      ⟨inner.store.set name (.ofScalar (.int next)), inner.world⟩ [] := by
    refine .of_done nofun fun limit => ?_
    rw [executeAll_singleton, execute, Execution.given,
      Modification.newValue_increment inside successor]
    rfl
  have turned := (bodyEnds.andThen updateEnds).inFrame
  rw [List.append_nil] at turned
  exact ⟨_, next, turned, follows, counts.turn left⟩

/-- A counted loop has taken some turns, and its body has run once from each of these sessions,
each time to its end. -/
structure Counted (console : Console σ) (name : String) (first bound : Int32)
    (body : List Instruction) (initSpan updateSpan span : Span) (session : Session σ)
    (starts : List (Session σ)) (records : List (List Exchange)) (before : Session σ) : Prop where
  turns : (session.counting name first).AfterTurns console
    (Condition.countedBelow name bound).evaluate
    (turnOf [.modify name .increment updateSpan] body) starts.length before records.flatten
  counts : ∃ value : Int32, value.toInt = first.toInt + starts.length ∧
    before.store.Counts name value
  begins : ∀ (count : Nat) (start : Session σ), starts[count]? = some start →
    session.BodyBegins console (.counting name first bound body initSpan updateSpan span) count
        start ∧
      ∃ value : Int32, value.toInt = first.toInt + count ∧
        start.store.lookup? name = some ⟨name, .ofScalar (.int value)⟩
  bodies : List.Forall₂ (fun start record =>
    ∃ after, Ends console (executeAll · body) start .proceeds after record) starts records

variable {starts : List (Session σ)} {records : List (List Exchange)}

/-- Below the bound there is a further turn. -/
theorem Counted.next
    (counted : session.Counted console name first bound body initSpan updateSpan span starts records
      before)
    (few : first.toInt + starts.length < bound.toInt) (unwritten : name ∉ writtenNamesIn body)
    (proceeds : session.BodyProceeds console
      (.counting name first bound body initSpan updateSpan span) body) :
    ∃ start record after, session.Counted console name first bound body initSpan updateSpan span
      (starts ++ [start]) (records ++ [record]) after := by
  obtain ⟨value, numbered, counts⟩ := counted.counts
  have below : value.toInt < bound.toInt := by omega
  have truth := endsOn_countedBelow console counts bound
  rw [decide_eq_true below] at truth
  have begins : session.BodyBegins console
      (.counting name first bound body initSpan updateSpan span) starts.length before.push :=
    .intro (ends_counting console session name first initSpan) counted.turns truth
  obtain ⟨inner, record, bodyEnds⟩ := proceeds _ _ begins
  obtain ⟨after, next, turnEnds, follows, nextCounts⟩ :=
    ends_turnOf counts below unwritten bodyEnds
  refine ⟨before.push, record, after, ?_, ⟨next, ?_, nextCounts⟩, ?_, ?_⟩
  · have turns := counted.turns.next truth turnEnds
    rw [List.nil_append] at turns
    rwa [List.length_append, List.length_singleton, List.flatten_append, List.flatten_singleton]
  · rw [List.length_append, List.length_singleton]
    omega
  · intro count start found
    rw [List.getElem?_append] at found
    split at found
    · exact counted.begins count start found
    · next beyond =>
        obtain ⟨last, rfl⟩ : count - starts.length = 0 ∧ before.push = start := by
          simpa [List.getElem?_singleton] using found
        obtain rfl : count = starts.length := by omega
        exact ⟨begins, value, numbered, counts.holds⟩
  · exact List.rel_append counted.bodies (.cons ⟨inner, bodyEnds⟩ .nil)

/-- So the loop comes to any number of turns up to the distance of the bound. -/
theorem exists_counted (unwritten : name ∉ writtenNamesIn body)
    (proceeds : session.BodyProceeds console
      (.counting name first bound body initSpan updateSpan span) body) :
    ∀ {count : Nat}, count ≤ (bound.toInt - first.toInt).toNat →
      ∃ starts records before, starts.length = count ∧
        session.Counted console name first bound body initSpan updateSpan span starts records
          before := by
  intro count within
  induction count with
  | zero =>
      exact ⟨[], [], session.counting name first, rfl, .entered,
        ⟨first, by simp, .declare name first _⟩, nofun, .nil⟩
  | succ count inductionHypothesis =>
      obtain ⟨starts, records, before, rfl, counted⟩ := inductionHypothesis (by omega)
      obtain ⟨start, record, after, more⟩ := counted.next (by omega) unwritten proceeds
      exact ⟨_, _, after, List.length_append, more⟩

/-- A loop that counts a variable up from `first` to below `bound`, and whose body does not write
the variable, runs its body once for every number on the way, if the body always comes to its
end.  There is no other time when the body begins.  Each time the variable holds the number, the
exchanges of the loop are those of its bodies in turn, and after the loop there is no variable
of the name, whether or not there was one before. -/
theorem runs_counted (console : Console σ) (session : Session σ) (name : String)
    (first bound : Int32) (body : List Instruction) (initSpan updateSpan span : Span)
    (unwritten : name ∉ writtenNamesIn body)
    (proceeds : session.BodyProceeds console
      (.counting name first bound body initSpan updateSpan span) body) :
    ∃ (starts : List (Session σ)) (records : List (List Exchange)) (after : Session σ),
      starts.length = (bound.toInt - first.toInt).toNat ∧
      (∀ count start,
        session.BodyBegins console (.counting name first bound body initSpan updateSpan span)
            count start ↔
          starts[count]? = some start) ∧
      (∀ (count : Nat) (start : Session σ), starts[count]? = some start → ∃ value : Int32,
        value.toInt = first.toInt + count ∧
          start.store.lookup? name = some ⟨name, .ofScalar (.int value)⟩) ∧
      List.Forall₂ (fun start record =>
        ∃ ended, Ends console (executeAll · body) start .proceeds ended record) starts records ∧
      session.Ends console
        ((Instruction.counting name first bound body initSpan updateSpan span).execute ·) .proceeds
        after records.flatten ∧
      ¬after.store.isDeclared name := by
  obtain ⟨starts, records, last, length, counted⟩ :=
    exists_counted unwritten proceeds (Nat.le_refl _)
  obtain ⟨value, numbered, counts⟩ := counted.counts
  have untrue := endsOn_countedBelow console counts bound
  rw [decide_eq_false (by omega)] at untrue
  have head := ends_counting console session name first initSpan
  have loopEnds := (head.andThen (counted.turns.ends untrue)).inFrame
  rw [List.nil_append, List.append_nil] at loopEnds
  refine ⟨starts, records, last.pop, length, fun count start => ⟨fun begins => ?_, fun found => ?_⟩,
    fun count start found => (counted.begins count start found).2, counted.bodies, loopEnds, ?_⟩
  · have within := begins.lt_of_over head counted.turns untrue
    have found := List.getElem?_eq_getElem within
    rw [found, (counted.begins count _ found).1.unique begins]
  · exact (counted.begins count start found).1
  · rw [pop, Store.isDeclared_pop]
    exact fun declared => declared.2 counts.owned

/-! ### Up to the highest integer -/

/-- A body that declares another variable, which its frame removes. -/
def declaringY : List Instruction :=
  [.declare "y" (.integer 0) ⟨0, 0⟩]

/-- A loop that ends below the highest integer. -/
def countingToHighest : Instruction :=
  .counting "x" 2147483645 Int32.maxValue declaringY ⟨0, 0⟩ ⟨0, 0⟩ ⟨0, 0⟩

/-- A session in which there is an `x` already. -/
def withX : Session Script :=
  ⟨Store.empty.declare "x" (.ofScalar (.string "a")), .ofAnswers []⟩

/-- The body runs for two numbers, the second time for the one below the highest, and the `x` from
before the loop is gone. -/
theorem counted_to_the_highest :
    "x" ∉ writtenNamesIn declaringY ∧
      withX.BodyProceeds Script.console countingToHighest declaringY ∧
      ∃ (second after : Session Script) (record : List Exchange),
        (∀ start, withX.BodyBegins Script.console countingToHighest 1 start ↔ second = start) ∧
        second.store.lookup? "x" = some ⟨"x", .ofScalar (.int 2147483646)⟩ ∧
        (∀ start, ¬withX.BodyBegins Script.console countingToHighest 2 start) ∧
        withX.Ends Script.console (countingToHighest.execute ·) .proceeds after record ∧
        ¬after.store.isDeclared "x" := by
  have unwritten : "x" ∉ writtenNamesIn declaringY := by decide
  have proceeds : withX.BodyProceeds Script.console countingToHighest declaringY :=
    fun _ _ _ => ⟨_, [], .of_done nofun fun _ => rfl⟩
  obtain ⟨starts, records, after, length, begins, numbers, -, ends, gone⟩ :=
    runs_counted Script.console withX "x" 2147483645 Int32.maxValue declaringY ⟨0, 0⟩ ⟨0, 0⟩ ⟨0, 0⟩
      unwritten proceeds
  have two : starts.length = 2 := length
  obtain ⟨first, second, rfl⟩ := List.length_eq_two.mp two
  obtain ⟨value, number, found⟩ := numbers 1 second rfl
  obtain rfl : value = 2147483646 := Int32.toInt_inj.mp number
  refine ⟨unwritten, proceeds, second, after, records.flatten, fun start => ?_, found,
    fun start more => ?_, ends, gone⟩
  · exact (begins 1 start).trans Option.some_inj
  · cases (begins 2 start).mp more

end Session

end Letterline
