/-
Module: Letterline.Dialogue
Purpose: Computations that talk to a user, and the consoles that answer them.
Trusted boundary: none
Main exports:
  Dialogue, Dialogue.bind, Dialogue.iterate, Console, Dialogue.run
-/

namespace Letterline

/-!
A dialogue is what a computation looks like from outside: it ends with a result, or
it asks for a line, writes a text or flushes what was written, and goes on in a way
that depends on the answer.  A console gives the answers, and running a dialogue
against a console is the only place where the two meet.
-/

/-- A computation that talks to a user before it ends with a result. -/
inductive Dialogue (α : Type) where
  | done (result : α)
  /-- Asks for a line, which can fail for a reason. -/
  | ask (next : Except String String → Dialogue α)
  /-- Writes a text, which can fail for a reason. -/
  | tell (text : String) (next : Except String Unit → Dialogue α)
  /-- Flushes what was written, which can fail for a reason. -/
  | flush (next : Except String Unit → Dialogue α)

namespace Dialogue

/-- Goes on with the result of a dialogue. -/
def bind {α β : Type} : Dialogue α → (α → Dialogue β) → Dialogue β
  | .done result, f => f result
  | .ask next, f => .ask fun answer => (next answer).bind f
  | .tell text next, f => .tell text fun answer => (next answer).bind f
  | .flush next, f => .flush fun answer => (next answer).bind f

instance : Monad Dialogue where
  pure := .done
  bind := bind

@[simp] theorem pure_eq_done {α : Type} (result : α) :
    (pure result : Dialogue α) = .done result :=
  rfl

@[simp] theorem bind_eq {α β : Type} (dialogue : Dialogue α) (f : α → Dialogue β) :
    dialogue >>= f = dialogue.bind f :=
  rfl

@[simp] theorem done_bind {α β : Type} (result : α) (f : α → Dialogue β) :
    (Dialogue.done result).bind f = f result :=
  rfl

@[simp] theorem bind_done {α : Type} (dialogue : Dialogue α) :
    dialogue.bind .done = dialogue := by
  induction dialogue with
  | done result => rfl
  | ask next ih => simp [bind, ih]
  | tell text next ih => simp [bind, ih]
  | flush next ih => simp [bind, ih]

theorem bind_assoc {α β γ : Type} (dialogue : Dialogue α) (f : α → Dialogue β)
    (g : β → Dialogue γ) :
    (dialogue.bind f).bind g = dialogue.bind fun result => (f result).bind g := by
  induction dialogue with
  | done result => rfl
  | ask next ih => simp [bind, ih]
  | tell text next ih => simp [bind, ih]
  | flush next ih => simp [bind, ih]

instance : LawfulMonad Dialogue :=
  LawfulMonad.mk' Dialogue bind_done (fun _ _ => rfl) bind_assoc

/-! ### Repetition -/

/-- What a turn of a repetition ends with. -/
inductive Turn (σ β : Type) where
  | again (state : σ)
  | stop (result : β)

/-- Takes turns until one stops, at most `limit` of them.

A turn that says nothing is followed by the next one directly, so that a silent
repetition needs no memory. -/
def iterate {σ β : Type} (turn : σ → Dialogue (Turn σ β)) (giveUp : σ → β) :
    (limit : Nat) → σ → Dialogue β
  | 0, state => .done (giveUp state)
  | limit + 1, state =>
      match turn state with
      | .done (.again next) => iterate turn giveUp limit next
      | dialogue =>
          dialogue.bind fun
            | .again next => iterate turn giveUp limit next
            | .stop result => .done result

theorem iterate_zero {σ β : Type} (turn : σ → Dialogue (Turn σ β)) (giveUp : σ → β)
    (state : σ) : iterate turn giveUp 0 state = .done (giveUp state) :=
  rfl

/-- A repetition takes one turn and goes on as the turn says. -/
theorem iterate_succ {σ β : Type} (turn : σ → Dialogue (Turn σ β)) (giveUp : σ → β)
    (limit : Nat) (state : σ) :
    iterate turn giveUp (limit + 1) state =
      (turn state).bind fun
        | .again next => iterate turn giveUp limit next
        | .stop result => .done result := by
  rw [iterate]
  split
  · next h => simp [h]
  · rfl

end Dialogue

/-- The answers to a dialogue, and how each changes the state that they come from. -/
structure Console (σ : Type) where
  /-- Answers a request for a line. -/
  answer : σ → Except String String × σ
  /-- Takes a text that is not empty. -/
  write : String → σ → Except String Unit × σ
  /-- Takes a request to flush. -/
  flush : σ → Except String Unit × σ

/-- Holds a dialogue with a console. -/
def Dialogue.run {σ α : Type} (console : Console σ) : Dialogue α → σ → α × σ
  | .done result, state => (result, state)
  | .ask next, state =>
      let (answer, state) := console.answer state
      (next answer).run console state
  | .tell text next, state =>
      let (answer, state) := console.write text state
      (next answer).run console state
  | .flush next, state =>
      let (answer, state) := console.flush state
      (next answer).run console state

theorem Dialogue.run_bind {σ α β : Type} (console : Console σ) (dialogue : Dialogue α)
    (f : α → Dialogue β) (state : σ) :
    (dialogue.bind f).run console state =
      (f (dialogue.run console state).1).run console (dialogue.run console state).2 := by
  induction dialogue generalizing state with
  | done result => rfl
  | ask next ih => exact ih _ _
  | tell text next ih => exact ih _ _
  | flush next ih => exact ih _ _

end Letterline
