/-
Module: Letterline.Proofs.Dialogue
Purpose: The results that a dialogue can end with, whatever it is answered.
Trusted boundary: none
Main exports:
  Dialogue.MayEnd, Dialogue.mayEnd_bind, Dialogue.MayEnd.of_iterate,
  Dialogue.mayEnd_run, Dialogue.iterate_map
-/
import Letterline.Dialogue

namespace Letterline.Dialogue

/-!
A console answers in one way, a statement about all consoles is a statement about all
answers.  `MayEnd` forgets the console: it holds of a result if some answers lead to
it.  What is shown of every result that a dialogue may end with holds in particular
of the one that it ends with on a given console.
-/

/-- Some answers lead a dialogue to a result. -/
def MayEnd {α : Type} : Dialogue α → α → Prop
  | .done reached, result => result = reached
  | .ask next, result => ∃ answer, (next answer).MayEnd result
  | .tell _ next, result => ∃ answer, (next answer).MayEnd result
  | .flush next, result => ∃ answer, (next answer).MayEnd result

variable {α β σ : Type}

@[simp] theorem mayEnd_done {reached result : α} :
    (Dialogue.done reached).MayEnd result ↔ result = reached :=
  Iff.rfl

@[simp] theorem mayEnd_ask {next : Except String String → Dialogue α} {result : α} :
    (Dialogue.ask next).MayEnd result ↔ ∃ answer, (next answer).MayEnd result :=
  Iff.rfl

@[simp] theorem mayEnd_tell {text : String} {next : Except String Unit → Dialogue α}
    {result : α} :
    (Dialogue.tell text next).MayEnd result ↔ ∃ answer, (next answer).MayEnd result :=
  Iff.rfl

@[simp] theorem mayEnd_flush {next : Except String Unit → Dialogue α} {result : α} :
    (Dialogue.flush next).MayEnd result ↔ ∃ answer, (next answer).MayEnd result :=
  Iff.rfl

/-- A dialogue that goes on ends with what the second part makes of a result of the
first. -/
@[simp] theorem mayEnd_bind {dialogue : Dialogue α} {f : α → Dialogue β} {result : β} :
    (dialogue.bind f).MayEnd result ↔
      ∃ middle, dialogue.MayEnd middle ∧ (f middle).MayEnd result := by
  induction dialogue with
  | done reached => simp [bind]
  | ask next inductionHypothesis =>
      simp only [bind, mayEnd_ask, inductionHypothesis, ← exists_and_right]
      exact exists_comm
  | tell text next inductionHypothesis =>
      simp only [bind, mayEnd_tell, inductionHypothesis, ← exists_and_right]
      exact exists_comm
  | flush next inductionHypothesis =>
      simp only [bind, mayEnd_flush, inductionHypothesis, ← exists_and_right]
      exact exists_comm

/-- The result on a console is one that a dialogue may end with. -/
theorem mayEnd_run (console : Console σ) (dialogue : Dialogue α) (state : σ) :
    dialogue.MayEnd (dialogue.run console state).1 := by
  induction dialogue generalizing state with
  | done reached => rfl
  | ask next inductionHypothesis => exact ⟨_, inductionHypothesis _ _⟩
  | tell text next inductionHypothesis => exact ⟨_, inductionHypothesis _ _⟩
  | flush next inductionHypothesis => exact ⟨_, inductionHypothesis _ _⟩

/-- What every turn of a repetition keeps holds where the repetition ends: in a turn
that stops, or when the turns are spent. -/
theorem MayEnd.of_iterate {turn : σ → Dialogue (Turn σ β)} {giveUp : σ → β}
    {Invariant : σ → Prop}
    (kept : ∀ state next, Invariant state → (turn state).MayEnd (.again next) →
      Invariant next) :
    ∀ {limit : Nat} {state : σ} {result : β}, Invariant state →
      (iterate turn giveUp limit state).MayEnd result →
        ∃ last, Invariant last ∧
          ((turn last).MayEnd (.stop result) ∨ result = giveUp last)
  | 0, state, result, holds, ends => ⟨state, holds, Or.inr ends⟩
  | limit + 1, state, result, holds, ends => by
      rw [iterate_succ, mayEnd_bind] at ends
      rcases ends with ⟨middle, taken, rest⟩
      cases middle with
      | again next => exact of_iterate kept (kept state next holds taken) rest
      | stop reached =>
          rw [mayEnd_done] at rest
          exact ⟨state, holds, Or.inl (rest ▸ taken)⟩

/-! ### Repetitions that show others -/

/-- A turn that shows another state and another result. -/
def Turn.map {τ γ : Type} (view : σ → τ) (finish : β → γ) : Turn σ β → Turn τ γ
  | .again state => .again (view state)
  | .stop result => .stop (finish result)

/-- If every turn of a repetition shows a turn of another one, the repetition shows the
other one. -/
theorem iterate_map {τ γ : Type} {turn : σ → Dialogue (Turn σ β)} {giveUp : σ → β}
    {shownTurn : τ → Dialogue (Turn τ γ)} {shownGiveUp : τ → γ} {view : σ → τ}
    {finish : β → γ}
    (shows_turn : ∀ state, (turn state).bind (fun taken => .done (taken.map view finish)) =
      shownTurn (view state))
    (shows_giveUp : ∀ state, finish (giveUp state) = shownGiveUp (view state)) :
    ∀ (limit : Nat) (state : σ),
      (iterate turn giveUp limit state).bind (fun result => .done (finish result)) =
        iterate shownTurn shownGiveUp limit (view state)
  | 0, state => congrArg Dialogue.done (shows_giveUp state)
  | limit + 1, state => by
      rw [iterate_succ, iterate_succ, ← shows_turn, bind_assoc, bind_assoc]
      congr 1
      funext taken
      cases taken with
      | again next => exact iterate_map shows_turn shows_giveUp limit next
      | stop result => rfl

end Letterline.Dialogue
