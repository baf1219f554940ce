import OpcodeTables.Proofs.Opcode
import OpcodeTables.Proofs.Symbol
import OpcodeTables.Proofs.Text.Blank

/-!
# Texts that spell opcodes

What a text spells is said by what is left of it without the blanks around it: a number that fits in a byte is a
literal, identifiers joined by `::` are a symbol, and anything else is a fault, which tells numbers that are too large
from the rest (`Opcode.parse_classifies`).
-/

namespace OpcodeTables.Opcode

variable {s : String}

/-- Blanks around a text do not matter. -/
theorem parse_append_blanks {w w' : List Char} (hw : ∀ c ∈ w, Text.isBlank c) (hw' : ∀ c ∈ w', Text.isBlank c) :
    parse (String.ofList (w ++ s.toList ++ w')) = parse s := by
  have htrim : Text.trim (String.ofList (w ++ s.toList ++ w')).toList = Text.trim s.toList := by
    rw [String.toList_ofList, Text.trim_append hw hw']
  rw [parse, parse, htrim]

section

variable {u : String} (hu : Text.trim s.toList = u.toList)

include hu

theorem parse_eq_ok_iff_of_trim {o : Opcode} : parse s = .ok o ↔ o.source = u ∧ o.Spelled := by
  rw [parse_eq_ok_iff, hu, String.ofList_toList]

theorem parse_eq_literal_iff {v : UInt8} {text : String} :
    parse s = .ok (.literal v text) ↔ text = u ∧ Integer.read? u.toList = some v.toNat := by
  rw [parse_eq_ok_iff_of_trim hu]
  constructor
  · rintro ⟨rfl, h⟩
    exact ⟨rfl, h⟩
  · rintro ⟨rfl, h⟩
    exact ⟨rfl, h⟩

theorem parse_eq_symbol_iff {name : String} :
    parse s = .ok (.symbol name) ↔ name = u ∧ Symbol.IsQualified u.toList := by
  rw [parse_eq_ok_iff_of_trim hu]
  constructor
  · rintro ⟨rfl, -, h⟩
    exact ⟨rfl, Symbol.isSymbol_iff.1 h⟩
  · rintro ⟨rfl, h⟩
    exact ⟨rfl, Integer.read?_eq_none_of_isQualified h, Symbol.isSymbol_iff.2 h⟩

theorem parse_eq_error_iff {e : Fault} :
    parse s = .error e ↔
      (∃ n, Integer.read? u.toList = some n ∧ 255 < n ∧ e = .tooLarge u) ∨
      (Integer.read? u.toList = none ∧ ¬ Symbol.IsQualified u.toList ∧ e = .unreadable u) := by
  rw [← Symbol.isSymbol_iff, parse, hu, String.ofList_toList]
  cases hr : Integer.read? u.toList with
  | none =>
    by_cases hs : Symbol.isSymbol u
    · simp [hs]
    · simp [hs, eq_comm]
  | some n =>
    simp only [Option.some.injEq, exists_eq_left', reduceCtorEq, false_and, or_false]
    by_cases hn : n < 256
    · rw [if_pos hn]
      constructor
      · intro h
        cases h
      · rintro ⟨hlarge, -⟩
        omega
    · rw [if_neg hn, Except.error.injEq, eq_comm, and_iff_right (by omega)]

end

/-- A text spells an opcode if it is the number of a byte or a symbol, blanks around it aside. -/
theorem exists_parse_eq_ok_iff :
    (∃ o, parse s = .ok o) ↔
      (∃ n ≤ 255, Integer.read? (Text.trim s.toList) = some n) ∨ Symbol.IsQualified (Text.trim s.toList) := by
  have hu : Text.trim s.toList = (String.ofList (Text.trim s.toList)).toList := String.toList_ofList.symm
  rw [hu]
  constructor
  · rintro ⟨o, ho⟩
    cases o with
    | literal v text =>
      have := v.toNat_lt
      exact .inl ⟨v.toNat, by omega, ((parse_eq_literal_iff hu).1 ho).2⟩
    | symbol name => exact .inr ((parse_eq_symbol_iff hu).1 ho).2
  · rintro (⟨n, hn, hr⟩ | h)
    · refine ⟨_, (parse_eq_literal_iff (v := .ofNat n) hu).2 ⟨rfl, ?_⟩⟩
      rw [hr, UInt8.toNat_ofNat', Nat.mod_eq_of_lt (by omega)]
    · exact ⟨_, (parse_eq_symbol_iff hu).2 ⟨rfl, h⟩⟩

/-- With the blanks around it gone, a text spells the byte that it denotes, if it denotes one, or else a symbol, if it
is made of identifiers joined by `::`; these two never overlap.  Any other text is a fault of the description.  What is
spelled is spelled by its own source too. -/
theorem parse_classifies (s : String) :
    (∀ w w' : List Char, (∀ c ∈ w, Text.isBlank c) → (∀ c ∈ w', Text.isBlank c) →
      parse (String.ofList (w ++ s.toList ++ w')) = parse s) ∧
    (∃ u : String, Text.Trims s.toList u.toList ∧
      (∀ v text, parse s = .ok (.literal v text) ↔ text = u ∧ Integer.read? u.toList = some v.toNat) ∧
      (∀ name, parse s = .ok (.symbol name) ↔ name = u ∧ Symbol.IsQualified u.toList) ∧
      (∀ e, parse s = .error e ↔
        (∃ n, Integer.read? u.toList = some n ∧ 255 < n ∧ e = .tooLarge u) ∨
        (Integer.read? u.toList = none ∧ ¬ Symbol.IsQualified u.toList ∧ e = .unreadable u)) ∧
      (Symbol.IsQualified u.toList → Integer.read? u.toList = none)) ∧
    (∀ e, parse s = .error e → e.message = "Malformed instruction-set description: " ++ e.problem) ∧
    ∀ o, parse s = .ok o → parse o.source = .ok o := by
  refine ⟨fun w w' => parse_append_blanks, ⟨String.ofList (Text.trim s.toList), ?_⟩, fun _ _ => rfl, fun o ho => ?_⟩
  · have hu : Text.trim s.toList = (String.ofList (Text.trim s.toList)).toList := String.toList_ofList.symm
    exact ⟨Text.trims_iff.2 hu, fun _ _ => parse_eq_literal_iff hu, fun _ => parse_eq_symbol_iff hu,
      fun _ => parse_eq_error_iff hu, Integer.read?_eq_none_of_isQualified⟩
  · exact (parse_eq_ok_iff.1 ho).2.parse_source

/-- Blanks beyond ASCII around a qualified symbol. -/
theorem parse_classifies_qualified :
    let s := "OP::_add1"
    let w := ['\u3000', '\u0085']
    (∀ c ∈ w, Text.isBlank c) ∧ (∀ c ∈ ['\t'], Text.isBlank c) ∧
      parse (String.ofList (w ++ s.toList ++ ['\t'])) = parse s ∧ parse s = .ok (.symbol s) ∧
      parse (symbol s).source = .ok (.symbol s) := by
  intro s w
  have hw : ∀ c ∈ w, Text.isBlank c := List.all_eq_true.1 (by decide)
  have hw' : ∀ c ∈ ['\t'], Text.isBlank c := List.all_eq_true.1 (by decide)
  obtain ⟨hblanks, ⟨u, hu, -, hsymbol, -⟩, -, hsource⟩ := parse_classifies s
  have hs : parse s = .ok (.symbol s) := by decide
  exact ⟨hw, hw', hblanks w ['\t'] hw hw', hs, hsource _ hs⟩

example :
    parse " 0xFF\n" = .ok (.literal 255 "0xFF") ∧ parse "256" = .error (.tooLarge "256") ∧
      parse "a:::b" = .error (.unreadable "a:::b") ∧ parse "::a" = .error (.unreadable "::a") ∧
      parse "__0x10" = .ok (.symbol "__0x10") ∧
      parse "18446744073709551616" = .error (.unreadable "18446744073709551616") := by
  decide

end OpcodeTables.Opcode
