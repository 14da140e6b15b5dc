/-
Module: Letterline.Proofs.Delimiter
Purpose: Where a literal ends, said without a scan.
Trusted boundary: none
Main exports:
  escapes, Delimited, Cursor.splitLiteral_eq_some_iff, Delimited.unique
-/
import Letterline.Cursor

namespace Letterline

/-!
A literal ends at the first occurrence of its delimiter that is not escaped.  A
delimiter is escaped by an escape letter of the contents directly in front of it, unless
another escape letter stands in front of that one.
-/

/-- Contents that end in an escape letter which no escape letter precedes. -/
def escapes (contents : List Char) : Bool :=
  contents.getLast? == some Cursor.escapeLetter
    && contents.dropLast.getLast? != some Cursor.escapeLetter

/-- What can stand between two delimiters: every delimiter inside is escaped, and the
closing one is not. -/
structure Delimited (delimiter : Char) (contents : List Char) : Prop where
  inside : ∀ front back, contents = front ++ delimiter :: back → escapes front
  closing : escapes contents = false

@[simp] theorem escapes_nil : escapes [] = false :=
  rfl

@[simp] theorem escapes_concat (contents : List Char) (c : Char) :
    escapes (contents ++ [c]) =
      (c == Cursor.escapeLetter && contents.getLast? != some Cursor.escapeLetter) := by
  simp [escapes]

/-- What holds in front of every occurrence of a character, said of the first character
and of those behind it. -/
theorem forall_occurrence_cons {c found : Char} {tail : List Char}
    {Holds : List Char → Prop} :
    (∀ front back, c :: tail = front ++ found :: back → Holds front) ↔
      (c = found → Holds []) ∧
        ∀ front back, tail = front ++ found :: back → Holds (c :: front) := by
  constructor
  · intro holds
    refine ⟨fun same => holds [] tail (by rw [same]; rfl), fun front back split => ?_⟩
    exact holds (c :: front) back (by rw [split]; rfl)
  · rintro ⟨atHead, inTail⟩ front back split
    cases front with
    | nil =>
        rw [List.nil_append, List.cons.injEq] at split
        exact atHead split.1
    | cons first front =>
        rw [List.cons_append, List.cons.injEq] at split
        rcases split with ⟨rfl, split⟩
        exact inTail front back split

namespace Cursor

variable {delimiter : Char} {contents rest : List Char}

/-- The scan behind contents that have been passed. -/
theorem splitLiteral_passed (ordinary : delimiter ≠ escapeLetter) (text passed : List Char) :
    splitLiteral delimiter (escapes passed) (passed.getLast?.getD delimiter) text =
        some (contents, rest) ↔
      text = contents ++ delimiter :: rest ∧
        (∀ front back, contents = front ++ delimiter :: back → escapes (passed ++ front)) ∧
        escapes (passed ++ contents) = false := by
  induction text generalizing passed contents with
  | nil => simp [splitLiteral]
  | cons c tail inductionHypothesis =>
      have last : (passed.getLast?.getD delimiter != escapeLetter) =
          (passed.getLast? != some escapeLetter) := by
        rw [Bool.eq_iff_iff]
        cases passed.getLast? <;> simp [ordinary]
      have further : ∀ contents : List Char, splitLiteral delimiter (escapes (passed ++ [c]))
          ((passed ++ [c]).getLast?.getD delimiter) tail = some (contents, rest) ↔
            tail = contents ++ delimiter :: rest ∧
              (∀ front back, contents = front ++ delimiter :: back →
                escapes (passed ++ [c] ++ front)) ∧
              escapes (passed ++ [c] ++ contents) = false :=
        fun _ => inductionHypothesis (passed ++ [c])
      simp only [escapes_concat, List.getLast?_concat, Option.getD_some, List.append_assoc,
        List.singleton_append, ← last] at further
      rw [splitLiteral]
      split
      · next closes =>
          rcases closes with ⟨rfl, unescaped⟩
          constructor
          · intro found
            cases found
            exact ⟨rfl, by simp, by simpa using unescaped⟩
          · intro evidence
            rcases evidence with ⟨split, inside, _⟩
            cases contents with
            | nil => cases split; rfl
            | cons first contents =>
                obtain ⟨rfl, _⟩ := List.cons.inj split
                have escaped := (forall_occurrence_cons.mp inside).1 rfl
                simp [unescaped] at escaped
      · next goes =>
          rw [Option.map_eq_some_iff]
          constructor
          · intro evidence
            rcases evidence with ⟨⟨inner, after⟩, found, same⟩
            cases same
            obtain ⟨split, inside, closing⟩ := (further inner).mp found
            refine ⟨by rw [split]; rfl, forall_occurrence_cons.mpr ⟨?_, inside⟩, closing⟩
            intro same
            rw [List.append_nil]
            exact Bool.not_eq_false _ ▸ fun unescaped => goes ⟨same, unescaped⟩
          · intro evidence
            rcases evidence with ⟨split, inside, closing⟩
            cases contents with
            | nil =>
                obtain ⟨rfl, _⟩ := List.cons.inj split
                rw [List.append_nil] at closing
                exact absurd ⟨rfl, closing⟩ goes
            | cons first inner =>
                obtain ⟨rfl, tailSplit⟩ := List.cons.inj split
                refine ⟨(inner, rest), (further inner).mpr ⟨tailSplit, ?_, closing⟩, rfl⟩
                exact (forall_occurrence_cons.mp inside).2

/-- The scan finds the contents of a literal if something may stand between its
delimiters, and what follows is whatever the text goes on with. -/
theorem splitLiteral_eq_some_iff (ordinary : delimiter ≠ escapeLetter) {text : List Char} :
    splitLiteral delimiter false delimiter text = some (contents, rest) ↔
      text = contents ++ delimiter :: rest ∧ Delimited delimiter contents := by
  rw [show splitLiteral delimiter false delimiter text =
    splitLiteral delimiter (escapes []) (([] : List Char).getLast?.getD delimiter) text from rfl,
    splitLiteral_passed ordinary]
  constructor
  · intro evidence
    rcases evidence with ⟨split, inside, closing⟩
    exact ⟨split, inside, closing⟩
  · intro evidence
    rcases evidence with ⟨split, inside, closing⟩
    exact ⟨split, inside, closing⟩

end Cursor

/-- Contents without the delimiter and the escape letter can stand between delimiters. -/
theorem Delimited.of_plain {delimiter : Char} {contents : List Char}
    (plain : ∀ c ∈ contents, c ≠ delimiter ∧ c ≠ Cursor.escapeLetter) :
    Delimited delimiter contents where
  inside := by
    rintro front back rfl
    exact absurd rfl (plain delimiter (by simp)).1
  closing := by
    rcases List.eq_nil_or_concat contents with rfl | ⟨init, last, rfl⟩
    · rfl
    · rw [List.concat_eq_append] at plain ⊢
      rw [escapes_concat, beq_eq_false_iff_ne.mpr (plain last (by simp)).2, Bool.false_and]

/-- In one text a literal has one closing delimiter. -/
theorem Delimited.unique {delimiter : Char} {contents others rest tail : List Char}
    (ordinary : delimiter ≠ Cursor.escapeLetter) (first : Delimited delimiter contents)
    (second : Delimited delimiter others)
    (same : contents ++ delimiter :: rest = others ++ delimiter :: tail) :
    contents = others ∧ rest = tail := by
  have scanned : Cursor.splitLiteral delimiter false delimiter (contents ++ delimiter :: rest) =
      some (contents, rest) :=
    (Cursor.splitLiteral_eq_some_iff ordinary).mpr ⟨rfl, first⟩
  rw [(Cursor.splitLiteral_eq_some_iff ordinary).mpr ⟨same, second⟩] at scanned
  cases scanned
  exact ⟨rfl, rfl⟩

end Letterline
