/-
Module: Letterline.Proofs.Escape
Purpose: Which texts the literals of strings and characters denote, and how to write them.
Trusted boundary: none
Main exports:
  Avoids, Quoted, avoids_unescapeString, written, escapeString,
  unescapeString_escapeString, delimited_escapeString, unescapeChar?_escapeChar
-/
import Letterline.Literal
import Letterline.Proofs.Delimiter

namespace Letterline

/-!
The escapes of a string are replaced one after the other in the whole text, so a text
that contains the letters of a later escape cannot be denoted: `ggn` becomes `gn` first
and then the end of a line.  Every other text can be denoted by escaping its characters
one by one.
-/

/-- Two characters stand nowhere in a row. -/
def Avoids (first second : Char) (text : List Char) : Prop :=
  ¬[first, second] <:+: text

section

variable {a b r x y c : Char} {text front back rest : List Char}

@[simp] theorem avoids_nil : Avoids a b [] := by
  simp [Avoids]

theorem avoids_cons :
    Avoids a b (c :: text) ↔ ¬(c = a ∧ text.head? = some b) ∧ Avoids a b text := by
  rw [Avoids, Avoids, List.infix_cons_iff, not_or]
  refine and_congr_left fun _ => not_congr ?_
  rw [List.cons_prefix_cons]
  cases text <;> simp [eq_comm]

theorem avoids_of_not_mem (absent : b ∉ text) : Avoids a b text := by
  induction text with
  | nil => exact avoids_nil
  | cons c text inductionHypothesis =>
      rw [List.mem_cons, not_or] at absent
      refine avoids_cons.mpr ⟨?_, inductionHypothesis absent.2⟩
      intro evidence
      rcases evidence with ⟨_, next⟩
      exact absent.2 (List.mem_of_mem_head? next)

/-- Nothing new stands in a row where two texts meet that do not make up the pair. -/
theorem avoids_append (apart : front.getLast? ≠ some a ∨ c ≠ b) (inFront : Avoids a b front)
    (inBack : Avoids a b (c :: back)) : Avoids a b (front ++ c :: back) := by
  induction front with
  | nil => exact inBack
  | cons d front inductionHypothesis =>
      rw [avoids_cons] at inFront
      rw [List.cons_append, avoids_cons]
      cases front with
      | nil =>
          refine ⟨?_, inBack⟩
          intro evidence
          rcases evidence with ⟨rfl, next⟩
          cases next
          simp at apart
      | cons e front =>
          rw [List.getLast?_cons_cons] at apart
          exact ⟨inFront.1, inductionHypothesis apart inFront.2⟩

/-! ### Replacing a pair -/

theorem replacePair_pair :
    replacePair a b r (a :: b :: rest) = r :: replacePair a b r rest := by
  simp [replacePair]

theorem replacePair_cons (other : ¬(c = a ∧ rest.head? = some b)) :
    replacePair a b r (c :: rest) = c :: replacePair a b r rest := by
  cases rest with
  | nil => rfl
  | cons d rest =>
      rw [List.head?_cons, Option.some.injEq] at other
      rw [replacePair, if_neg other]

theorem head?_replacePair :
    (replacePair a b r text).head? = text.head? ∨ (replacePair a b r text).head? = some r := by
  fun_cases replacePair a b r text with
  | case1 c d rest pair => exact Or.inr rfl
  | case2 c d rest other => exact Or.inl rfl
  | case3 short => exact Or.inl rfl

theorem mem_replacePair (member : x ∈ replacePair a b r text) : x ∈ text ∨ x = r := by
  fun_induction replacePair a b r text with
  | case1 c d rest pair inductionHypothesis =>
      rcases List.mem_cons.mp member with rfl | inRest
      · exact Or.inr rfl
      · rcases inductionHypothesis inRest with there | same
        · exact Or.inl (List.mem_cons_of_mem _ (List.mem_cons_of_mem _ there))
        · exact Or.inr same
  | case2 c d rest other inductionHypothesis =>
      rcases List.mem_cons.mp member with rfl | inRest
      · exact Or.inl List.mem_cons_self
      · rcases inductionHypothesis inRest with there | same
        · exact Or.inl (List.mem_cons_of_mem _ there)
        · exact Or.inr same
  | case3 short => exact Or.inl member

theorem replacePair_of_not_mem (absent : b ∉ text) : replacePair a b r text = text := by
  fun_induction replacePair a b r text with
  | case1 c d rest pair inductionHypothesis => simp [pair.2] at absent
  | case2 c d rest other inductionHypothesis =>
      rw [inductionHypothesis fun member => absent (List.mem_cons_of_mem _ member)]
  | case3 short => rfl

/-- Two texts that do not make up a pair where they meet are replaced in separately. -/
theorem replacePair_append (apart : front.getLast? ≠ some a ∨ c ≠ b) :
    replacePair a b r (front ++ c :: back) =
      replacePair a b r front ++ replacePair a b r (c :: back) := by
  fun_induction replacePair a b r front with
  | case1 d e rest pair inductionHypothesis =>
      rcases pair with ⟨rfl, rfl⟩
      rw [List.cons_append, List.cons_append, replacePair_pair, inductionHypothesis,
        List.cons_append]
      cases rest with
      | nil => exact Or.inl nofun
      | cons f rest => simpa using apart
  | case2 d e rest other inductionHypothesis =>
      rw [List.getLast?_cons_cons] at apart
      have unpaired : ¬(d = a ∧ (e :: rest ++ c :: back).head? = some b) := by simpa using other
      rw [List.cons_append, replacePair_cons unpaired, inductionHypothesis apart,
        List.cons_append]
  | case3 short notLong =>
      match short, notLong with
      | [], _ => rfl
      | [d], _ =>
          refine replacePair_cons ?_
          intro evidence
          rcases evidence with ⟨rfl, next⟩
          cases next
          simp at apart
      | d :: e :: rest, notLong => exact absurd rfl (notLong d e rest)

/-- A text in which a pair is replaced ends in its first character only if it did before. -/
theorem getLast?_replacePair (ends : text.getLast? ≠ some a) (other : r ≠ a ∨ a = b) :
    (replacePair a b r text).getLast? ≠ some a := by
  rcases List.eq_nil_or_concat text with rfl | ⟨front, c, rfl⟩
  · nofun
  rw [List.concat_eq_append, List.getLast?_concat, ne_eq, Option.some.injEq] at ends
  rw [List.concat_eq_append]
  by_cases apart : front.getLast? ≠ some a ∨ c ≠ b
  · rw [replacePair_append apart]
    simpa [replacePair] using ends
  · rw [not_or, Decidable.not_not, Decidable.not_not] at apart
    rcases apart with ⟨last, rfl⟩
    obtain ⟨init, rfl⟩ := List.getLast?_eq_some_iff.mp last
    have differs : r ≠ a := other.resolve_right (Ne.symm ends)
    rw [List.append_assoc, List.singleton_append, replacePair_append (Or.inr (Ne.symm ends)),
      replacePair_pair]
    simpa [replacePair] using differs

/-- A pair that is replaced stands nowhere any more, and no other one appears, if it does
not have the replacement in it. -/
theorem avoids_replacePair (avoids : Avoids x y text ∨ (x = a ∧ y = b)) (first : r ≠ x)
    (second : r ≠ y) : Avoids x y (replacePair a b r text) := by
  fun_induction replacePair a b r text with
  | case1 c d rest pair inductionHypothesis =>
      have behind : Avoids x y rest ∨ (x = a ∧ y = b) := by
        refine avoids.imp_left fun before => ?_
        exact (avoids_cons.mp (avoids_cons.mp before).2).2
      exact avoids_cons.mpr ⟨fun both => first both.1, inductionHypothesis behind⟩
  | case2 c d rest unpaired inductionHypothesis =>
      have behind : Avoids x y (d :: rest) ∨ (x = a ∧ y = b) :=
        avoids.imp_left fun before => (avoids_cons.mp before).2
      refine avoids_cons.mpr ⟨?_, inductionHypothesis behind⟩
      intro evidence
      rcases evidence with ⟨rfl, next⟩
      have start : (replacePair a b r (d :: rest)).head? = some d ∨
          (replacePair a b r (d :: rest)).head? = some r := head?_replacePair
      rw [next, Option.some.injEq, Option.some.injEq] at start
      rcases start with rfl | rfl
      · rcases avoids with before | same
        · exact (avoids_cons.mp before).1 ⟨rfl, rfl⟩
        · exact unpaired same
      · exact second rfl
  | case3 short notLong =>
      match short, notLong with
      | [], _ => exact avoids_nil
      | [d], _ => exact avoids_cons.mpr ⟨nofun, avoids_nil⟩
      | d :: e :: rest, notLong => exact absurd rfl (notLong d e rest)

end

/-! ### What strings denote -/

theorem escapes_append_cons {c : Char} (ordinary : c ≠ Cursor.escapeLetter)
    (front back : List Char) : escapes (front ++ c :: back) = escapes back := by
  rcases List.eq_nil_or_concat back with rfl | ⟨init, last, rfl⟩
  · rw [escapes_concat, beq_eq_false_iff_ne.mpr ordinary, Bool.false_and, escapes_nil]
  · rw [List.concat_eq_append, ← List.cons_append, ← List.append_assoc, escapes_concat,
      escapes_concat]
    rcases List.eq_nil_or_concat init with rfl | ⟨init, previous, rfl⟩
    · have here : (some c != some Cursor.escapeLetter) = true := by simpa using ordinary
      rw [List.getLast?_concat, here]
      rfl
    · rw [List.concat_eq_append, ← List.cons_append, ← List.append_assoc, List.getLast?_concat,
        List.getLast?_concat]

/-- A text in which every `s` stands behind a single escape letter. -/
inductive Quoted : List Char → Prop where
  | plain {block : List Char} (free : 's' ∉ block) : Quoted block
  | escaped {block rest : List Char} (free : 's' ∉ block)
      (single : block.getLast? ≠ some 'g') (quoted : Quoted rest) :
      Quoted (block ++ 'g' :: 's' :: rest)

namespace Quoted

theorem of_inside (contents : List Char)
    (inside : ∀ front back, contents = front ++ 's' :: back → escapes front) :
    Quoted contents := by
  by_cases member : 's' ∈ contents
  · obtain ⟨front, back, split, free⟩ := List.eq_append_cons_of_mem member
    have shorter : back.length < contents.length := by
      rw [split, List.length_append, List.length_cons]
      omega
    have behind : Quoted back := by
      refine of_inside back fun inner tail innerSplit => ?_
      rw [← escapes_append_cons (by decide : 's' ≠ Cursor.escapeLetter) front inner]
      refine inside _ tail ?_
      rw [split, innerSplit, List.append_assoc, List.cons_append]
    have escapesFront := inside front back split
    rcases List.eq_nil_or_concat front with rfl | ⟨block, last, rfl⟩
    · cases escapesFront
    · simp only [List.concat_eq_append, escapes_concat, Bool.and_eq_true, beq_iff_eq,
        bne_iff_ne, ne_eq] at escapesFront
      rcases escapesFront with ⟨rfl, single⟩
      rw [split, List.concat_eq_append, List.append_assoc]
      refine escaped (fun there => free ?_) single behind
      simp [there]
  · exact plain member
termination_by contents.length
decreasing_by exact shorter

/-- Replacing an escape with another letter keeps every `s` behind a single escape letter. -/
theorem replacePair {text : List Char} {letter replacement : Char} (quoted : Quoted text)
    (notLetter : letter ≠ 's') (notReplaced : replacement ≠ 's')
    (other : replacement ≠ 'g' ∨ 'g' = letter) :
    Quoted (replacePair 'g' letter replacement text) := by
  induction quoted with
  | plain free =>
      refine plain fun member => ?_
      rcases mem_replacePair member with there | same
      · exact free there
      · exact notReplaced same.symm
  | @escaped block rest free single quoted inductionHypothesis =>
      rw [replacePair_append (Or.inl single),
        replacePair_cons (by simpa using Ne.symm notLetter),
        replacePair_cons fun both => absurd both.1 (by decide)]
      refine escaped ?_ (getLast?_replacePair single other) inductionHypothesis
      intro member
      rcases mem_replacePair member with there | same
      · exact free there
      · exact notReplaced same.symm

/-- Once the escapes of the delimiter are replaced there are none left. -/
theorem avoids {text : List Char} (quoted : Quoted text) :
    Avoids 'g' 's' (Letterline.replacePair 'g' 's' 's' text) := by
  induction quoted with
  | plain free =>
      rw [replacePair_of_not_mem free]
      exact avoids_of_not_mem free
  | escaped free single quoted inductionHypothesis =>
      rw [replacePair_append (Or.inl single), replacePair_pair, replacePair_of_not_mem free]
      refine avoids_append (Or.inl single) (avoids_of_not_mem free) ?_
      exact avoids_cons.mpr ⟨by simp, inductionHypothesis⟩

end Quoted

/-- What can stand in a string literal denotes no text with the letters of an escape behind
an escape letter. -/
theorem avoids_unescapeString {contents : String} (delimited : Delimited 's' contents.toList)
    {letter : Char} (escape : letter = 'n' ∨ letter = 'l' ∨ letter = 's') :
    Avoids 'g' letter (unescapeString contents).toList := by
  have quoted : Quoted (contents.toList |> replacePair 'g' 'g' 'g' |> replacePair 'g' 'n' '\n'
      |> replacePair 'g' 'l' ' ') :=
    (((Quoted.of_inside _ delimited.inside).replacePair (by decide) (by decide)
      (Or.inr rfl)).replacePair (by decide) (by decide) (Or.inl (by decide))).replacePair
        (by decide) (by decide) (Or.inl (by decide))
  rw [unescapeString, String.toList_ofList]
  rcases escape with rfl | rfl | rfl
  · refine avoids_replacePair (Or.inl ?_) (by decide) (by decide)
    refine avoids_replacePair (Or.inl ?_) (by decide) (by decide)
    exact avoids_replacePair (Or.inr ⟨rfl, rfl⟩) (by decide) (by decide)
  · refine avoids_replacePair (Or.inl ?_) (by decide) (by decide)
    exact avoids_replacePair (Or.inr ⟨rfl, rfl⟩) (by decide) (by decide)
  · exact quoted.avoids

/-! ### Writing characters -/

/-- A character as it is written if some characters have a letter that stands for them
behind an escape letter. -/
def written (codes : List (Char × Char)) (c : Char) : List Char :=
  match codes.lookup c with
  | some letter => ['g', letter]
  | none => [c]

section

variable {codes : List (Char × Char)} {c letter mark : Char} {text : List Char}

theorem written_of_lookup (found : codes.lookup c = some letter) :
    written codes c = ['g', letter] := by
  rw [written, found]

theorem written_of_lookup_none (absent : codes.lookup c = none) : written codes c = [c] := by
  rw [written, absent]

theorem mem_of_lookup (found : codes.lookup c = some letter) : (c, letter) ∈ codes := by
  obtain ⟨front, back, rfl, _⟩ := List.lookup_eq_some_iff.mp found
  simp

/-- What is written goes on as the text does, unless an escape letter comes. -/
theorem head?_flatMap_written (ordinary : letter ≠ 'g') (next : text.head? ≠ some letter) :
    (text.flatMap (written codes)).head? ≠ some letter := by
  cases text with
  | nil => nofun
  | cons c text =>
      rw [List.flatMap_cons, written]
      cases codes.lookup c with
      | none => simpa using next
      | some found => simpa using Ne.symm ordinary

/-- Replacing an escape undoes the writing of one character, and leaves the escapes of the
others.  Only an escape letter that is written as itself could make up another escape with
the next character. -/
theorem replacePair_written (fresh : codes.lookup c = none)
    (others : ∀ code ∈ codes, code.2 ≠ 'g' ∧ code.2 ≠ letter)
    (apart : c = 'g' ∨ letter ≠ 'g' ∧ Avoids 'g' letter text) :
    replacePair 'g' letter c (text.flatMap (written ((c, letter) :: codes))) =
      text.flatMap (written codes) := by
  induction text with
  | nil => rfl
  | cons d text inductionHypothesis =>
      have behind : c = 'g' ∨ letter ≠ 'g' ∧ Avoids 'g' letter text :=
        apart.imp_right fun both => ⟨both.1, (avoids_cons.mp both.2).2⟩
      rw [List.flatMap_cons, List.flatMap_cons]
      by_cases same : d = c
      · subst same
        rw [written_of_lookup List.lookup_cons_self, written_of_lookup_none fresh,
          List.cons_append, List.singleton_append, replacePair_pair, inductionHypothesis behind,
          List.singleton_append]
      · have later : ((c, letter) :: codes).lookup d = codes.lookup d := by
          rw [List.lookup_cons, beq_eq_false_iff_ne.mpr same]
        rw [written, later, written]
        cases found : codes.lookup d with
        | some other =>
            obtain ⟨notEscape, notLetter⟩ := others _ (mem_of_lookup found)
            have first : ¬('g' = 'g' ∧
                (other :: text.flatMap (written ((c, letter) :: codes))).head? = some letter) := by
              simpa using notLetter
            have second : ¬(other = 'g' ∧
                (text.flatMap (written ((c, letter) :: codes))).head? = some letter) :=
              fun both => notEscape both.1
            simp only [List.cons_append, List.nil_append]
            rw [replacePair_cons first, replacePair_cons second, inductionHypothesis behind]
        | none =>
            have single : ¬(d = 'g' ∧
                (text.flatMap (written ((c, letter) :: codes))).head? = some letter) := by
              intro evidence
              rcases evidence with ⟨rfl, next⟩
              rcases apart with escape | ⟨ordinary, avoids⟩
              · exact same escape.symm
              · refine head?_flatMap_written ordinary ?_ next
                exact fun there => (avoids_cons.mp avoids).1 ⟨rfl, there⟩
            simp only [List.cons_append, List.nil_append]
            rw [replacePair_cons single, inductionHypothesis behind]

/-- Characters that are written end in no single escape letter. -/
theorem escapes_written (escape : codes.lookup 'g' = some 'g') (text : List Char) :
    escapes (text.flatMap (written codes)) = false := by
  rcases List.eq_nil_or_concat text with rfl | ⟨init, c, rfl⟩
  · rfl
  rw [List.concat_eq_append, List.flatMap_append, List.flatMap_singleton]
  cases found : codes.lookup c with
  | none =>
      have ordinary : c ≠ Cursor.escapeLetter := by
        rintro rfl
        rw [Cursor.escapeLetter, escape] at found
        cases found
      rw [written_of_lookup_none found, escapes_append_cons ordinary]
      rfl
  | some letter =>
      rw [written_of_lookup found, List.append_cons, escapes_concat, List.getLast?_concat]
      simp [Cursor.escapeLetter]

/-- Every delimiter in what is written stands behind a single escape letter, whatever has
been passed, if the text does not begin with one behind an escape letter. -/
theorem inside_written (ordinary : mark ≠ 'g') (escape : codes.lookup 'g' = some 'g')
    (marked : codes.lookup mark = some mark)
    (own : ∀ code ∈ codes, (code.2 = 'g' → code.1 = 'g') ∧ (code.2 = mark → code.1 = mark))
    (avoids : Avoids 'g' mark text) (passed : List Char)
    (apart : text.head? = some mark → passed.getLast? ≠ some 'g') :
    ∀ front back, text.flatMap (written codes) = front ++ mark :: back →
      escapes (passed ++ front) := by
  induction text generalizing passed with
  | nil => simp
  | cons c text inductionHypothesis =>
      obtain ⟨notPair, avoidsBehind⟩ := avoids_cons.mp avoids
      rw [List.flatMap_cons]
      cases found : codes.lookup c with
      | none =>
          have notMark : c ≠ mark := by
            rintro rfl
            rw [marked] at found
            cases found
          have notEscape : c ≠ 'g' := by
            rintro rfl
            rw [escape] at found
            cases found
          have behind := inductionHypothesis avoidsBehind (passed ++ [c])
            (by simpa using fun _ => notEscape)
          rw [written_of_lookup_none found, List.singleton_append]
          simp only [List.append_assoc, List.singleton_append] at behind
          exact forall_occurrence_cons.mpr ⟨fun same => absurd same notMark, behind⟩
      | some letter =>
          obtain ⟨ofEscape, ofMark⟩ : (letter = 'g' → c = 'g') ∧ (letter = mark → c = mark) :=
            own _ (mem_of_lookup found)
          have last : text.head? = some mark → letter ≠ 'g' := by
            rintro next rfl
            exact notPair ⟨ofEscape rfl, next⟩
          have behind := inductionHypothesis avoidsBehind (passed ++ ['g', letter])
            (by simpa using last)
          have single : letter = mark → escapes (passed ++ ['g']) := by
            intro same
            have free := apart (by rw [List.head?_cons, ofMark same])
            rw [escapes_concat]
            simpa [Cursor.escapeLetter] using free
          rw [written_of_lookup found, List.cons_append, List.singleton_append]
          simp only [List.append_assoc, List.cons_append, List.nil_append] at behind
          exact forall_occurrence_cons.mpr ⟨fun same => absurd same.symm ordinary,
            forall_occurrence_cons.mpr ⟨single, behind⟩⟩

/-- Written characters can stand between delimiters if the escape letter and the delimiter
have themselves for letters, and no other character has. -/
theorem delimited_written (ordinary : mark ≠ 'g') (escape : codes.lookup 'g' = some 'g')
    (marked : codes.lookup mark = some mark)
    (own : ∀ code ∈ codes, (code.2 = 'g' → code.1 = 'g') ∧ (code.2 = mark → code.1 = mark))
    (avoids : Avoids 'g' mark text) : Delimited mark (text.flatMap (written codes)) where
  inside := inside_written ordinary escape marked own avoids [] nofun
  closing := escapes_written escape text

theorem not_mem_written (coded : codes.lookup c ≠ none) (ordinary : c ≠ 'g')
    (letters : ∀ code ∈ codes, code.2 ≠ c) (text : List Char) :
    c ∉ text.flatMap (written codes) := by
  rw [List.mem_flatMap]
  intro evidence
  rcases evidence with ⟨d, _, member⟩
  rw [written] at member
  cases found : codes.lookup d with
  | none =>
      rw [found, List.mem_singleton] at member
      exact coded (member ▸ found)
  | some letter =>
      rw [found] at member
      simp only [List.mem_cons, List.not_mem_nil, or_false] at member
      rcases member with same | same
      · exact ordinary same
      · exact letters _ (mem_of_lookup found) same.symm

end

/-! ### Writing strings and characters -/

/-- The characters of a string that have an escape, with their letters. -/
def stringCodes : List (Char × Char) :=
  [('g', 'g'), ('\n', 'n'), (' ', 'l'), ('s', 's')]

/-- The characters of a character literal that have an escape, with their letters. -/
def charCodes : List (Char × Char) :=
  [('g', 'g'), ('\n', 'n'), (' ', 'l'), ('c', 'c')]

/-- The contents of a string literal for a text. -/
def escapeString (text : String) : String :=
  String.ofList (text.toList.flatMap (written stringCodes))

/-- The contents of a character literal for a character. -/
def escapeChar (c : Char) : String :=
  String.ofList (written charCodes c)

/-- A text without the letters of escapes behind escape letters is what its escaped form
denotes. -/
theorem unescapeString_escapeString {text : String} (newline : Avoids 'g' 'n' text.toList)
    (space : Avoids 'g' 'l' text.toList) (delimiter : Avoids 'g' 's' text.toList) :
    unescapeString (escapeString text) = text := by
  rw [unescapeString, escapeString, String.toList_ofList, stringCodes,
    replacePair_written (by decide) (by decide) (Or.inl rfl),
    replacePair_written (by decide) (by decide) (Or.inr ⟨by decide, newline⟩),
    replacePair_written (by decide) (by decide) (Or.inr ⟨by decide, space⟩),
    replacePair_written (by decide) (by decide) (Or.inr ⟨by decide, delimiter⟩)]
  have plain : text.toList.flatMap (written []) = text.toList := List.flatMap_singleton' _
  rw [plain, String.ofList_toList]

theorem delimited_escapeString {text : String} (delimiter : Avoids 'g' 's' text.toList) :
    Delimited 's' (escapeString text).toList := by
  rw [escapeString, String.toList_ofList]
  exact delimited_written (by decide) (by decide) (by decide) (by decide) delimiter

theorem space_not_mem_escapeString (text : String) : ' ' ∉ (escapeString text).toList := by
  rw [escapeString, String.toList_ofList]
  exact not_mem_written (by decide) (by decide) (by decide) _

@[simp] theorem toList_escapeChar (c : Char) : (escapeChar c).toList = written charCodes c :=
  String.toList_ofList

theorem unescapeChar?_escapeChar (c : Char) : unescapeChar? (escapeChar c) = some c := by
  rw [unescapeChar?, toList_escapeChar]
  cases found : charCodes.lookup c with
  | none =>
      rw [written_of_lookup_none found]
      simp
  | some letter =>
      rw [written_of_lookup found]
      have coded := mem_of_lookup found
      simp only [charCodes, List.mem_cons, Prod.mk.injEq, List.not_mem_nil, or_false] at coded
      rcases coded with ⟨rfl, rfl⟩ | ⟨rfl, rfl⟩ | ⟨rfl, rfl⟩ | ⟨rfl, rfl⟩ <;> rfl

theorem delimited_escapeChar (c : Char) : Delimited 'c' (escapeChar c).toList := by
  have single : Avoids 'g' 'c' [c] := avoids_cons.mpr ⟨nofun, avoids_nil⟩
  rw [toList_escapeChar, ← List.flatMap_singleton (written charCodes)]
  exact delimited_written (by decide) (by decide) (by decide) (by decide) single

theorem space_not_mem_escapeChar (c : Char) : ' ' ∉ (escapeChar c).toList := by
  rw [toList_escapeChar, ← List.flatMap_singleton (written charCodes)]
  exact not_mem_written (by decide) (by decide) (by decide) _

end Letterline
