import Mathlib.Data.List.TakeWhile
import OpcodeTables.Text.Blank

/-!
# Trimming

What is left of a text when it is trimmed neither begins nor ends with a blank, and only blanks stood around it
(`Trims`); there is exactly one such text (`trims_iff`).  So blanks around a text do not matter (`trim_append`).
-/

namespace OpcodeTables.Text

/-- The text without the blanks at its two ends. -/
structure Trims (s u : List Char) : Prop where
  around : ∃ w w', (∀ c ∈ w, isBlank c) ∧ (∀ c ∈ w', isBlank c) ∧ s = w ++ u ++ w'
  head : ∀ c ∈ u.head?, ¬ isBlank c
  last : ∀ c ∈ u.getLast?, ¬ isBlank c

variable {s u w w' : List Char}

theorem trim_append (hw : ∀ c ∈ w, isBlank c) (hw' : ∀ c ∈ w', isBlank c) : trim (w ++ s ++ w') = trim s := by
  have hend : w'.dropWhile isBlank = [] := List.dropWhile_eq_nil_iff.2 hw'
  rw [trim, trim, List.append_assoc, List.dropWhile_append_of_pos hw, List.dropWhile_append]
  split
  · rename_i hs
    rw [hend, List.isEmpty_iff.1 hs]
  · rw [List.reverse_append, List.dropWhile_append_of_pos fun c hc => hw' c (List.mem_reverse.1 hc)]

/-- A text that neither begins nor ends with a blank stays as it is. -/
theorem trim_of_ends (hhead : ∀ c ∈ u.head?, ¬ isBlank c) (hlast : ∀ c ∈ u.getLast?, ¬ isBlank c) : trim u = u := by
  have keep : ∀ l : List Char, (∀ c ∈ l.head?, ¬ isBlank c) → l.dropWhile isBlank = l := by
    intro l hl
    cases l with
    | nil => rfl
    | cons c l => exact List.dropWhile_cons_of_neg (hl c rfl)
  rw [trim, keep u hhead, keep u.reverse (by rwa [List.head?_reverse]), List.reverse_reverse]

/-- Blanks in front are dropped, and nothing else. -/
private theorem exists_blanks (l : List Char) :
    ∃ w, (∀ c ∈ w, isBlank c) ∧ l = w ++ l.dropWhile isBlank ∧ ∀ c ∈ (l.dropWhile isBlank).head?, ¬ isBlank c := by
  refine ⟨l.takeWhile isBlank, fun c hc => List.mem_takeWhile_imp hc, List.takeWhile_append_dropWhile.symm,
    fun c hc => ?_⟩
  have hfirst := List.head?_dropWhile_not isBlank l
  rw [Option.mem_def.1 hc] at hfirst
  simpa using hfirst

theorem trims_trim (s : List Char) : Trims s (trim s) := by
  obtain ⟨w, hw, hs, hhead⟩ := exists_blanks s
  obtain ⟨w', hw', hback, hlast⟩ := exists_blanks (s.dropWhile isBlank).reverse
  -- the trimmed text and the blanks behind it are what follows the blanks in front
  have hrest : s.dropWhile isBlank = trim s ++ w'.reverse := by
    rw [trim, ← List.reverse_append, ← hback, List.reverse_reverse]
  refine ⟨⟨w, w'.reverse, hw, fun c hc => hw' c (List.mem_reverse.1 hc), ?_⟩, fun c hc => hhead c ?_, fun c hc => ?_⟩
  · rw [List.append_assoc, ← hrest]
    exact hs
  · rw [hrest, List.head?_append, Option.mem_def.1 hc]
    rfl
  · rw [trim, List.getLast?_reverse] at hc
    exact hlast c hc

theorem trims_iff : Trims s u ↔ trim s = u := by
  constructor
  · rintro ⟨⟨w, w', hw, hw', rfl⟩, hhead, hlast⟩
    rw [trim_append hw hw', trim_of_ends hhead hlast]
  · rintro rfl
    exact trims_trim s

end OpcodeTables.Text
