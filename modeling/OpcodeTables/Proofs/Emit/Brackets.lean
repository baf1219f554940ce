import OpcodeTables.Proofs.Emit.Entry

/-!
# Nested brackets

`unclosed` reads a text with the brackets that are still open on a stack.  What it reads from no open brackets to none
is properly nested (`balanced_of_unclosed`).  The text of items closes the brackets that it opens
(`Initializer.Adds.unclosed_eq`), because a list of items is read up to the bracket that closes it.
-/

namespace OpcodeTables.Emit

open Initializer (Bracket Level mark? read Unmarked)

/-- Every bracket of the text is opened and closed by a pair of one kind, with a balanced text between them. -/
inductive Balanced : List Char → Prop where
  | nil : Balanced []
  | char {c : Char} {s : List Char} (hc : ∀ b : Bracket, c ≠ b.openChar ∧ c ≠ b.closeChar) (hs : Balanced s) :
    Balanced (c :: s)
  | nest (b : Bracket) {s t : List Char} (hs : Balanced s) (ht : Balanced t) :
    Balanced (b.openChar :: s ++ b.closeChar :: t)

/-- The brackets that are open after the text, the last one first, unless a bracket of the text closes none. -/
def unclosed (stack : List Bracket) : List Char → Option (List Bracket)
  | [] => some stack
  | c :: cs =>
    match mark? c with
    | some (.opening b) => unclosed (b :: stack) cs
    | some (.closing b) => if stack.head? = some b then unclosed stack.tail cs else none
    | _ => unclosed stack cs

theorem mark?_eq_opening_iff {c : Char} {b : Bracket} : mark? c = some (.opening b) ↔ c = b.openChar := by
  constructor
  · unfold mark?
    split <;> intro h <;> cases h <;> rfl
  · rintro rfl
    cases b <;> rfl

theorem mark?_eq_closing_iff {c : Char} {b : Bracket} : mark? c = some (.closing b) ↔ c = b.closeChar := by
  constructor
  · unfold mark?
    split <;> intro h <;> cases h <;> rfl
  · rintro rfl
    cases b <;> rfl

/-! ### Reading brackets -/

section

variable {c : Char} {s t : List Char} {b : Bracket} {stack stack' : List Bracket}

theorem unclosed_opening (h : mark? c = some (.opening b)) : unclosed stack (c :: s) = unclosed (b :: stack) s := by
  rw [unclosed, h]

theorem unclosed_closing (h : mark? c = some (.closing b)) :
    unclosed stack (c :: s) = if stack.head? = some b then unclosed stack.tail s else none := by
  rw [unclosed, h]

theorem unclosed_char (h : ∀ b, mark? c ≠ some (.opening b) ∧ mark? c ≠ some (.closing b)) :
    unclosed stack (c :: s) = unclosed stack s := by
  rw [unclosed]
  split
  · rename_i b hb
    exact absurd hb (h b).1
  · rename_i b hb
    exact absurd hb (h b).2
  · rfl

/-- A character opens a bracket, closes one, or is none. -/
theorem mark?_cases (c : Char) : (∃ b, mark? c = some (.opening b)) ∨ (∃ b, mark? c = some (.closing b)) ∨
    ∀ b, mark? c ≠ some (.opening b) ∧ mark? c ≠ some (.closing b) := by
  rcases mark? c with _ | (_ | b | b)
  · exact .inr (.inr fun b => ⟨nofun, nofun⟩)
  · exact .inr (.inr fun b => ⟨nofun, nofun⟩)
  · exact .inl ⟨b, rfl⟩
  · exact .inr (.inl ⟨b, rfl⟩)

theorem unclosed_append : unclosed stack (s ++ t) = (unclosed stack s).bind (unclosed · t) := by
  induction s generalizing stack with
  | nil => rfl
  | cons c s ih =>
    rw [List.cons_append]
    rcases mark?_cases c with ⟨b, hb⟩ | ⟨b, hb⟩ | hc
    · rw [unclosed_opening hb, unclosed_opening hb, ih]
    · rw [unclosed_closing hb, unclosed_closing hb, ih]
      split <;> rfl
    · rw [unclosed_char hc, unclosed_char hc, ih]

/-- Brackets that are open below are left alone. -/
theorem unclosed_below (h : unclosed stack s = some stack') (below : List Bracket) :
    unclosed (stack ++ below) s = some (stack' ++ below) := by
  induction s generalizing stack with
  | nil =>
    cases h
    rfl
  | cons c s ih =>
    rcases mark?_cases c with ⟨b, hb⟩ | ⟨b, hb⟩ | hc
    · rw [unclosed_opening hb] at h ⊢
      exact ih h
    · rw [unclosed_closing hb] at h ⊢
      cases stack with
      | nil => cases h
      | cons b' stack =>
        split at h
        · rename_i hhead
          rw [if_pos (by simpa using hhead)]
          exact ih h
        · cases h
    · rw [unclosed_char hc] at h ⊢
      exact ih h

theorem unclosed_of_unmarked (h : Unmarked s) : unclosed stack s = some stack := by
  induction s with
  | nil => rfl
  | cons c s ih =>
    obtain ⟨hc, hs⟩ := List.forall_mem_cons.1 h
    rw [unclosed_char fun b => ⟨by simp [hc], by simp [hc]⟩, ih hs]

end

/-! ### The nesting -/

/-- The text closes the brackets one after another, with balanced texts between them and behind. -/
private inductive Closes : List Bracket → List Char → Prop where
  | nil {s : List Char} (hs : Balanced s) : Closes [] s
  | cons {b : Bracket} {stack : List Bracket} {s t : List Char} (hs : Balanced s) (ht : Closes stack t) :
    Closes (b :: stack) (s ++ b.closeChar :: t)

private theorem Closes.char {c : Char} {stack : List Bracket} {s : List Char}
    (hc : ∀ b : Bracket, c ≠ b.openChar ∧ c ≠ b.closeChar) (h : Closes stack s) : Closes stack (c :: s) := by
  cases h with
  | nil hs => exact .nil (.char hc hs)
  | cons hs ht => exact .cons (.char hc hs) ht

private theorem Closes.nest {b : Bracket} {stack : List Bracket} {s t : List Char} (hs : Balanced s)
    (h : Closes stack t) : Closes stack (b.openChar :: s ++ b.closeChar :: t) := by
  cases h with
  | nil ht => exact .nil (.nest b hs ht)
  | @cons b' stack u v hu hv =>
    have hcloses := Closes.cons (b := b') (.nest b hs hu) hv
    rwa [List.append_assoc, List.cons_append] at hcloses

private theorem closes_of_unclosed {stack : List Bracket} {s : List Char} (h : unclosed stack s = some []) :
    Closes stack s := by
  induction s generalizing stack with
  | nil =>
    cases h
    exact .nil .nil
  | cons c s ih =>
    rcases mark?_cases c with ⟨b, hb⟩ | ⟨b, hb⟩ | hc
    · rw [unclosed_opening hb] at h
      cases ih h with
      | cons hs ht =>
        rw [mark?_eq_opening_iff.1 hb]
        exact .nest hs ht
    · rw [unclosed_closing hb] at h
      split at h
      · rename_i hhead
        obtain ⟨stack, rfl⟩ := List.head?_eq_some_iff.1 hhead
        rw [mark?_eq_closing_iff.1 hb]
        exact .cons .nil (ih h)
      · cases h
    · rw [unclosed_char hc] at h
      refine .char (fun b => ⟨?_, ?_⟩) (ih h)
      · exact fun he => (hc b).1 (mark?_eq_opening_iff.2 he)
      · exact fun he => (hc b).2 (mark?_eq_closing_iff.2 he)

theorem balanced_of_unclosed {s : List Char} (h : unclosed [] s = some []) : Balanced s := by
  cases closes_of_unclosed h with
  | nil hs => exact hs

/-! ### Items -/

namespace Initializer

/-- Reading items ends at the bracket that closes the outermost list; the brackets before it are closed but for that
one. -/
theorem exists_unclosed_of_read {outer : List Level} {level : Level} {word s rest : List Char} {xs : List Item}
    (h : read outer level word s = some (xs, rest)) :
    ∃ u c, s = u ++ c :: rest ∧ unclosed (level.bracket :: outer.map Level.bracket).dropLast u = some [] := by
  induction s generalizing outer level word with
  | nil => cases h
  | cons c s ih =>
    -- a character that is read on stands before what is read of the rest
    have hread : ∀ {outer' : List Level} {level' : Level} {word' : List Char},
        read outer' level' word' s = some (xs, rest) →
        (∀ u, unclosed (level.bracket :: outer.map Level.bracket).dropLast (c :: u) =
          unclosed (level'.bracket :: outer'.map Level.bracket).dropLast u) →
        ∃ u d, c :: s = u ++ d :: rest ∧
          unclosed (level.bracket :: outer.map Level.bracket).dropLast u = some [] := by
      intro outer' level' word' h' hstack
      obtain ⟨u, d, rfl, hu⟩ := ih h'
      exact ⟨c :: u, d, rfl, by rw [hstack, hu]⟩
    rw [read.eq_def] at h
    rcases hm : mark? c with _ | (_ | b | b)
    · have hchar : ∀ b, mark? c ≠ some (.opening b) ∧ mark? c ≠ some (.closing b) := by simp [hm]
      simp only [hm] at h
      split at h <;> exact hread h fun u => unclosed_char hchar
    · simp only [hm] at h
      refine hread h fun u => ?_
      rw [unclosed_char (by simp [hm]), Level.bracket_finish]
    · simp only [hm] at h
      exact hread h fun u => unclosed_opening hm
    · simp only [hm] at h
      split at h
      · cases h
      · rename_i hb
        cases outer with
        | nil =>
          cases h
          exact ⟨[], c, rfl, rfl⟩
        | cons l outer =>
          refine hread h fun u => ?_
          rw [unclosed_closing hm, if_pos (by rw [not_not.1 hb]; rfl)]
          rfl

/-- The text of items closes the brackets that it opens. -/
theorem Adds.unclosed_eq {s : List Char} {xs : List Item} (h : Adds s xs) (stack : List Bracket) :
    unclosed stack s = some stack := by
  have hread : readList .curly (s ++ ['\x7d']) = some (xs, []) := readList_eq_some curly_closes h.fills
  obtain ⟨u, c, hu, hstack⟩ := exists_unclosed_of_read hread
  obtain ⟨rfl, -⟩ := List.append_inj' hu rfl
  exact unclosed_below hstack stack

end Initializer

/-! ### Lines -/

section

variable {stack stack' : List Bracket}

theorem unclosed_chars (l : Line) : unclosed stack l.chars = unclosed stack l.text.toList := by
  have hindent : Unmarked (List.replicate (4 * l.depth) ' ') := by
    intro c hc
    rw [List.eq_of_mem_replicate hc]
    rfl
  rw [Line.chars, unclosed_append, unclosed_append, unclosed_of_unmarked hindent, Option.bind_some]
  cases unclosed stack l.text.toList <;> rfl

theorem unclosed_cons_line {l : Line} (h : unclosed stack l.text.toList = some stack') (ls : List Line) :
    unclosed stack ((l :: ls).flatMap Line.chars) = unclosed stack' (ls.flatMap Line.chars) := by
  rw [List.flatMap_cons, unclosed_append, unclosed_chars, h, Option.bind_some]

theorem unclosed_blank (stack : List Bracket) : unclosed stack (Line.text ⟨0, ""⟩).toList = some stack :=
  rfl

theorem unclosed_append_lines {ls : List Line} (h : unclosed stack (ls.flatMap Line.chars) = some stack')
    (ms : List Line) : unclosed stack ((ls ++ ms).flatMap Line.chars) = unclosed stack' (ms.flatMap Line.chars) := by
  rw [List.flatMap_append, unclosed_append, h, Option.bind_some]

end

end OpcodeTables.Emit
