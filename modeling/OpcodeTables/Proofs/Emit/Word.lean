import OpcodeTables.Proofs.Emit.Initializer
import OpcodeTables.Proofs.Emit.Line
import OpcodeTables.Proofs.Names

/-!
# Words of generated sources

What is written as it is into generated sources, opcodes, namespaces and numbers, is made of letters, digits,
underscores and colons (`IsWord`).  So it can be a word of an initializer (`IsWord.plain`), and it neither breaks a line
nor opens a quote (`Bare`); names do not either (`Document.IsName.bare`).
-/

namespace OpcodeTables

namespace Emit

/-! ### Bare texts -/

/-- A text without line breaks and quotes. -/
structure Bare (s : List Char) : Prop where
  unbroken : '\n' ∉ s
  unquoted : '"' ∉ s

instance (s : List Char) : Decidable (Bare s) :=
  decidable_of_iff ('\n' ∉ s ∧ '"' ∉ s) ⟨fun ⟨hb, hq⟩ => ⟨hb, hq⟩, fun ⟨hb, hq⟩ => ⟨hb, hq⟩⟩

theorem bare_append_iff {s t : List Char} : Bare (s ++ t) ↔ Bare s ∧ Bare t := by
  constructor
  · rintro ⟨hb, hq⟩
    rw [List.mem_append, not_or] at hb hq
    exact ⟨⟨hb.1, hq.1⟩, hb.2, hq.2⟩
  · rintro ⟨⟨hb, hq⟩, hb', hq'⟩
    exact ⟨List.not_mem_append hb hb', List.not_mem_append hq hq'⟩

theorem bare_intercalate {sep : List Char} (hsep : Bare sep) {ws : List (List Char)} (hws : ∀ w ∈ ws, Bare w) :
    Bare (sep.intercalate ws) := by
  induction ws with
  | nil => exact ⟨List.not_mem_nil, List.not_mem_nil⟩
  | cons w ws ih =>
    obtain ⟨hw, hrest⟩ := List.forall_mem_cons.1 hws
    cases ws with
    | nil => rwa [List.intercalate_singleton]
    | cons v ws =>
      rw [List.intercalate_cons_cons, bare_append_iff, bare_append_iff]
      exact ⟨⟨hw, hsep⟩, ih hrest⟩

/-- A proper line without quotes. -/
structure Line.Bare (l : Line) : Prop extends l.Proper where
  unquoted : '"' ∉ l.text.toList

theorem Line.bare_of_text {l : Line} (h : Emit.Bare l.text.toList) (hhead : l.text.toList.head? ≠ some ' ') : l.Bare :=
  ⟨⟨h.unbroken, hhead⟩, h.unquoted⟩

instance (l : Line) : Decidable l.Proper :=
  decidable_of_iff ('\n' ∉ l.text.toList ∧ l.text.toList.head? ≠ some ' ')
    ⟨fun ⟨hb, hh⟩ => ⟨hb, hh⟩, fun ⟨hb, hh⟩ => ⟨hb, hh⟩⟩

instance (l : Line) : Decidable l.Bare :=
  decidable_of_iff (l.Proper ∧ '"' ∉ l.text.toList) ⟨fun ⟨hp, hq⟩ => ⟨hp, hq⟩, fun ⟨hp, hq⟩ => ⟨hp, hq⟩⟩

/-! ### Words -/

/-- A text of the characters of numbers and symbols. -/
def IsWord (w : List Char) : Prop :=
  ∀ c ∈ w, Symbol.isTail c ∨ c = ':'

namespace IsWord

variable {w : List Char}

theorem not_mem (h : IsWord w) {c : Char} (hc : ¬ (Symbol.isTail c ∨ c = ':')) : c ∉ w :=
  fun hm => hc (h c hm)

theorem bare (h : IsWord w) : Bare w :=
  ⟨h.not_mem (by decide), h.not_mem (by decide)⟩

theorem not_isBlank (h : IsWord w) {c : Char} (hc : c ∈ w) : Text.isBlank c = false := by
  rcases h c hc with ht | rfl
  · have := Symbol.toNat_bounds_of_isTail ht
    exact Text.isBlank_eq_false (by omega) (by omega)
  · decide

/-- A word of a source can be a word of an initializer. -/
theorem plain (h : IsWord w) : Initializer.Plain w := by
  have hmark : ∀ c ∈ w, Initializer.mark? c = none := by
    intro c hc
    have hmarks := h c hc
    unfold Initializer.mark?
    split <;> first | rfl | (revert hmarks; decide)
  exact ⟨hmark, fun c hc => h.not_isBlank (List.mem_of_head? hc), fun c hc => h.not_isBlank (List.mem_of_getLast? hc)⟩

end IsWord

theorem isWord_of_isSymbol {s : String} (h : Symbol.isSymbol s) : IsWord s.toList :=
  fun _ hc => Symbol.isTail_of_isSymbol h hc

theorem isWord_of_read? {w : List Char} {n : Nat} (h : Integer.read? w = some n) : IsWord w :=
  fun _ hc => .inl (Integer.isTail_of_read? h hc)

theorem isWord_decimal (n : Nat) : IsWord (Text.decimal n).toList := by
  intro c hc
  have hdigit := Text.isDigit_of_mem_decimal hc
  refine .inl ?_
  rw [Symbol.isTail, Char.isAlphanum, hdigit, Bool.or_true, Bool.true_or]

end Emit

theorem Opcode.Spelled.isWord {o : Opcode} (h : o.Spelled) : Emit.IsWord o.source.toList :=
  fun _ hc => h.mem_source hc

theorem Document.IsName.bare {name : String} (h : IsName name) : Emit.Bare name.toList := by
  constructor
  · intro hm
    have := (h.char _ hm).1
    revert this
    decide
  · intro hm
    exact (h.char _ hm).2.2.1 rfl

theorem Document.IsName.not_mem_space {name : String} (h : IsName name) : ' ' ∉ name.toList := by
  intro hm
  have := (h.char _ hm).1
  revert this
  decide

end OpcodeTables
