import OpcodeTables.Opcode
import OpcodeTables.Proofs.Integer

/-!
# Spellings of opcodes

An opcode that was parsed is spelled by its own source (`Opcode.parse_eq_ok_iff`): parsing the source again gives the
opcode (`Opcode.Spelled.parse_source`), and the source is made of letters, digits, underscores and colons
(`Opcode.Spelled.mem_source`).
-/

namespace OpcodeTables

namespace Symbol

theorem exists_parts_of_mem {s : List Char} {c : Char} (h : c ∈ s) : c = ':' ∨ ∃ p ∈ parts s, c ∈ p := by
  induction s using parts.induct with
  | case1 => simp at h
  | case2 s ih =>
    simp only [List.mem_cons] at h
    rcases h with h | h | h
    · exact .inl h
    · exact .inl h
    · rcases ih h with h | ⟨p, hp, hc⟩
      · exact .inl h
      · exact .inr ⟨p, by simp [parts, hp], hc⟩
  | case3 d s hs hn ih =>
    rw [parts.eq_3 d s hs, hn]
    rcases List.mem_cons.1 h with rfl | h
    · exact .inr ⟨[c], by simp, by simp⟩
    · rcases ih h with h | ⟨p, hp, -⟩
      · exact .inl h
      · simp [hn] at hp
  | case4 d s hs q qs hq ih =>
    rw [parts.eq_3 d s hs, hq]
    rcases List.mem_cons.1 h with rfl | h
    · exact .inr ⟨c :: q, by simp, by simp⟩
    · rcases ih h with h | ⟨p, hp, hc⟩
      · exact .inl h
      · rw [hq] at hp
        rcases List.mem_cons.1 hp with rfl | hp
        · exact .inr ⟨d :: p, by simp, by simp [hc]⟩
        · exact .inr ⟨p, by simp [hp], hc⟩

theorem isTail_of_isSymbol {s : String} (h : isSymbol s) {c : Char} (hc : c ∈ s.toList) : isTail c ∨ c = ':' := by
  rcases exists_parts_of_mem hc with h | ⟨p, hp, hc⟩
  · exact .inr h
  have hi := List.all_eq_true.1 h p hp
  cases p with
  | nil => simp at hc
  | cons d p =>
    simp only [isIdentifier, Bool.and_eq_true, List.all_eq_true] at hi
    rcases List.mem_cons.1 hc with rfl | hc
    · refine .inl ?_
      have := hi.1
      simp only [isHead, isTail, Char.isAlphanum, Bool.or_eq_true] at this ⊢
      tauto
    · exact .inl (hi.2 c hc)

end Symbol

namespace Opcode

/-- The spelling of the opcode means the opcode. -/
def Spelled : Opcode → Prop
  | .literal value text => Integer.read? text.toList = some value.toNat
  | .symbol name => Integer.read? name.toList = none ∧ Symbol.isSymbol name

theorem Spelled.mem_source {o : Opcode} (h : o.Spelled) {c : Char} (hc : c ∈ o.source.toList) :
    Symbol.isTail c ∨ c = ':' := by
  cases o with
  | literal value text => exact .inl (Integer.isTail_of_read? h hc)
  | symbol name => exact Symbol.isTail_of_isSymbol h.2 hc

theorem Spelled.read?_source {o : Opcode} (h : o.Spelled) {v : UInt8} (hv : o.value? = some v) :
    Integer.read? o.source.toList = some v.toNat := by
  cases o with
  | literal value text =>
    cases hv
    exact h
  | symbol name => cases hv

theorem parse_eq_ok_iff {s : String} {o : Opcode} :
    parse s = .ok o ↔ o.source = String.ofList (Text.trim s.toList) ∧ o.Spelled := by
  rw [parse]
  generalize String.ofList (Text.trim s.toList) = t
  constructor
  · intro h
    cases hr : Integer.read? t.toList with
    | none =>
      simp only [hr] at h
      split at h
      · rename_i hs
        cases h
        exact ⟨rfl, hr, hs⟩
      · cases h
    | some n =>
      simp only [hr] at h
      split at h
      · rename_i hn
        cases h
        refine ⟨rfl, ?_⟩
        rw [Spelled, hr, UInt8.toNat_ofNat', Nat.mod_eq_of_lt hn]
      · cases h
  · rintro ⟨rfl, h⟩
    cases o with
    | literal value text =>
      have hr : Integer.read? text.toList = some value.toNat := h
      simp only [source, hr, value.toNat_lt, if_true, UInt8.ofNat_toNat]
    | symbol name => simp only [source, h.1, h.2, if_true]

theorem spelled_ofByte (v : UInt8) : (ofByte v).Spelled :=
  Integer.read?_decimal (by have := v.toNat_lt; omega)

/-- A spelling is a fixed point of parsing. -/
theorem Spelled.parse_source {o : Opcode} (h : o.Spelled) : parse o.source = .ok o := by
  rw [parse_eq_ok_iff, Text.trim_eq_self, String.ofList_toList]
  · exact ⟨rfl, h⟩
  · intro c hc
    rcases h.mem_source hc with hc | rfl
    · have := Symbol.toNat_bounds_of_isTail hc
      exact Text.isBlank_eq_false (by omega) (by omega)
    · decide

theorem Spelled.eq_of_source_eq {o o' : Opcode} (h : o.Spelled) (h' : o'.Spelled) (hs : o.source = o'.source) :
    o = o' := by
  have hparse := h.parse_source
  rw [hs, h'.parse_source, Except.ok.injEq] at hparse
  exact hparse.symm

end Opcode
end OpcodeTables
