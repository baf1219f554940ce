import OpcodeTables.Proofs.Emit.CppHeader
import OpcodeTables.Proofs.Emit.Entry

/-!
# Lines of C++ headers

A header is made of the entries with names and of other lines around them (`lines_eq`).  The other lines have no quotes
but for the file that is included, when the opcodes are spelled and the namespace is a symbol.
-/

namespace OpcodeTables.Emit.CppHeader

/-! ### Forms -/

theorem bare_variantLine {v : Tables.VariantEntry} (h : v.opcode.Spelled) : (variantLine v).Bare := by
  have htype : Bare v.type.symbol.toList := by cases v.type <;> decide
  refine Line.bare_of_text ?_ (by simp [variantLine])
  simp only [variantLine, String.toList_append, bare_append_iff]
  exact ⟨⟨⟨⟨by decide, htype⟩, by decide⟩, h.isWord.bare⟩, by decide⟩

theorem bare_paramLines (kinds : List OperandKind) : ∀ l ∈ paramLines kinds, l.Bare := by
  intro l hl
  cases kinds with
  | nil => exact absurd hl List.not_mem_nil
  | cons k kinds =>
    rw [paramLines, List.isEmpty_cons, if_neg (by decide), List.mem_singleton] at hl
    rw [hl]
    have hkind : ∀ k : OperandKind, Bare ("InstrParamType::" ++ k.symbol ++ ",").toList := fun k => by
      cases k <;> decide
    refine Line.bare_of_text ?_ ?_
    · rw [String.toList_intercalate]
      refine bare_intercalate (by decide) fun w hw => ?_
      rw [List.map_map] at hw
      obtain ⟨k, -, rfl⟩ := List.mem_map.1 hw
      exact hkind k
    · cases kinds <;> simp [String.toList_intercalate]

theorem bare_formLines {f : Tables.Form} (h : ∀ o ∈ f.opcodes, o.Spelled) : ∀ l ∈ formLines f, l.Bare := by
  have hself := h f.opcode List.mem_cons_self
  have hopcode : (⟨3, f.opcode.source ++ ","⟩ : Line).Bare := by
    refine Line.bare_of_text ?_ ?_
    · rw [String.toList_append, bare_append_iff]
      exact ⟨hself.isWord.bare, by decide⟩
    · obtain ⟨c, cs, hc⟩ := List.exists_cons_of_ne_nil hself.source_ne_nil
      have hblank := hself.isWord.not_isBlank (c := c) (by simp [hc])
      rw [String.toList_append, hc]
      rintro ⟨⟩
      cases hblank
  have hflags : (⟨3, f.flags.symbols ++ ","⟩ : Line).Bare := by
    obtain ⟨a, b⟩ := f.flags
    cases a <;> cases b <;> decide
  have hvariants : ∀ l ∈ f.variants.map variantLine, l.Bare := by
    intro l hl
    obtain ⟨v, hv, rfl⟩ := List.mem_map.1 hl
    exact bare_variantLine (h v.opcode (List.mem_cons_of_mem _ (List.mem_map_of_mem hv)))
  simp only [formLines, List.forall_mem_append, List.forall_mem_cons]
  exact ⟨⟨⟨⟨⟨by decide, hopcode, hflags, by decide⟩, bare_paramLines f.params⟩, by decide⟩, hvariants⟩, by decide⟩

theorem bare_instructionLines {fs : List Tables.Form} (h : ∀ f ∈ fs, ∀ o ∈ f.opcodes, o.Spelled) :
    ∀ l ∈ instructionLines fs, l.Bare := by
  simp only [instructionLines, List.cons_append, List.forall_mem_cons, List.forall_mem_append]
  refine ⟨by decide, fun l hl => ?_, by decide⟩
  obtain ⟨f, hf, hl⟩ := List.mem_flatMap.1 hl
  exact bare_formLines (h f hf) l hl

/-! ### The parts of a header -/

def opening : List Line :=
  preamble ++ [⟨0, "const std::map<std::string, uint8_t> ASM_REGISTERS \x7b"⟩]

def middle (namespaceName : String) : List Line :=
  [⟨0, ""⟩, ⟨0, "namespace " ++ namespaceName ++ " \x7b"⟩, ⟨0, "const std::map<std::string, uint8_t> INSTR_NAMES \x7b"⟩]

def closing (t : Tables) (namespaceName : String) : List Line :=
  [⟨0, ""⟩, declarationLine t] ++ t.instructions.flatMap instructionLines ++
    [⟨0, "\x7d;"⟩, ⟨0, ""⟩, ⟨0, "\x7d // namespace " ++ namespaceName⟩]

/-- The line that ends a map. -/
def stop : Line :=
  ⟨0, "\x7d;"⟩

theorem lines_eq (t : Tables) (namespaceName : String) :
    lines t namespaceName =
      sourceLines (Cell.line .curly) stop t opening (middle namespaceName) (closing t namespaceName) := by
  rw [lines, map_registerLine, map_indexLine, sourceLines, opening, middle, closing, stop, declarationLine]
  simp only [List.append_assoc, List.cons_append, List.nil_append]

theorem proper_opening : ∀ l ∈ opening, l.Proper := by
  decide

variable {t : Tables} {namespaceName : String}

theorem bare_middle (h : Symbol.isSymbol namespaceName) : ∀ l ∈ middle namespaceName, l.Bare := by
  have hname := (isWord_of_isSymbol h).bare
  have hline : (⟨0, "namespace " ++ namespaceName ++ " \x7b"⟩ : Line).Bare := by
    refine Line.bare_of_text ?_ (by simp)
    simp only [String.toList_append, bare_append_iff]
    exact ⟨⟨by decide, hname⟩, by decide⟩
  simp only [middle, List.forall_mem_cons]
  exact ⟨by decide, hline, by decide⟩

theorem bare_closing (ht : ∀ o ∈ t.opcodes, o.Spelled) (h : Symbol.isSymbol namespaceName) :
    ∀ l ∈ closing t namespaceName, l.Bare := by
  have hdeclaration : (declarationLine t).Bare := by
    refine Line.bare_of_text ?_ (by simp [declarationLine])
    simp only [declarationLine, String.toList_append, bare_append_iff]
    exact ⟨⟨by decide, (isWord_decimal _).bare⟩, by decide⟩
  have hend : (⟨0, "\x7d // namespace " ++ namespaceName⟩ : Line).Bare := by
    refine Line.bare_of_text ?_ (by simp)
    rw [String.toList_append, bare_append_iff]
    exact ⟨by decide, (isWord_of_isSymbol h).bare⟩
  have hinstructions : ∀ l ∈ t.instructions.flatMap instructionLines, l.Bare := by
    intro l hl
    obtain ⟨fs, hfs, hl⟩ := List.mem_flatMap.1 hl
    exact bare_instructionLines (fun f hf o ho => ht o (Tables.mem_opcodes hfs hf ho)) l hl
  simp only [closing, List.forall_mem_append, List.forall_mem_cons]
  exact ⟨⟨⟨by decide, hdeclaration, by decide⟩, hinstructions⟩, by decide, by decide, hend, by decide⟩

end OpcodeTables.Emit.CppHeader
