import OpcodeTables.Proofs.Emit.Entry
import OpcodeTables.Proofs.Emit.RustSource

/-!
# Lines of Rust sources

A source is made of the entries with names, which are valid and so quoted as they are, and of other lines around them
(`lines_eq`).  The other lines have no quotes when the opcodes are spelled.
-/

namespace OpcodeTables.Emit.RustSource

/-! ### Forms -/

theorem bare_variantLine {v : Tables.VariantEntry} (h : v.opcode.Spelled) : (variantLine v).Bare := by
  have htype : Bare v.type.symbol.toList := by cases v.type <;> decide
  refine Line.bare_of_text ?_ (by simp [variantLine])
  simp only [variantLine, String.toList_append, bare_append_iff]
  exact ⟨⟨⟨⟨by decide, htype⟩, by decide⟩, h.isWord.bare⟩, by decide⟩

theorem bare_paramsLine (kinds : List OperandKind) : (paramsLine kinds).Bare := by
  have hkind : ∀ k : OperandKind, Bare ("InstrParamType::" ++ k.name).toList := fun k => by cases k <;> decide
  refine Line.bare_of_text ?_ (by simp [paramsLine])
  simp only [paramsLine, String.toList_append, bare_append_iff, String.toList_intercalate]
  refine ⟨⟨by decide, bare_intercalate (by decide) fun w hw => ?_⟩, by decide⟩
  rw [List.map_map] at hw
  obtain ⟨k, -, rfl⟩ := List.mem_map.1 hw
  exact hkind k

theorem bare_variantLines {vs : List Tables.VariantEntry} (h : ∀ v ∈ vs, v.opcode.Spelled) :
    ∀ l ∈ variantLines vs, l.Bare := by
  rw [variantLines]
  split
  · decide
  · simp only [List.cons_append, List.forall_mem_cons, List.forall_mem_append]
    refine ⟨by decide, fun l hl => ?_, by decide⟩
    obtain ⟨v, hv, rfl⟩ := List.mem_map.1 hl
    exact bare_variantLine (h v hv)

theorem bare_formLines {f : Tables.Form} (h : ∀ o ∈ f.opcodes, o.Spelled) : ∀ l ∈ formLines f, l.Bare := by
  have hopcode : (⟨3, "opcode: " ++ f.opcode.source ++ ","⟩ : Line).Bare := by
    refine Line.bare_of_text ?_ (by simp)
    simp only [String.toList_append, bare_append_iff]
    exact ⟨⟨by decide, (h f.opcode List.mem_cons_self).isWord.bare⟩, by decide⟩
  have hflags : (⟨3, "flags: " ++ f.flags.symbols ++ ","⟩ : Line).Bare := by
    obtain ⟨a, b⟩ := f.flags
    cases a <;> cases b <;> decide
  have hvariants := bare_variantLines fun v hv => h v.opcode (List.mem_cons_of_mem _ (List.mem_map_of_mem hv))
  simp only [formLines, List.forall_mem_append, List.forall_mem_cons]
  exact ⟨⟨⟨by decide, hopcode, hflags, bare_paramsLine f.params, by decide⟩, hvariants⟩, by decide⟩

theorem bare_instructionLines {fs : List Tables.Form} (h : ∀ f ∈ fs, ∀ o ∈ f.opcodes, o.Spelled) :
    ∀ l ∈ instructionLines fs, l.Bare := by
  simp only [instructionLines, List.cons_append, List.forall_mem_cons, List.forall_mem_append]
  refine ⟨by decide, fun l hl => ?_, by decide⟩
  obtain ⟨f, hf, hl⟩ := List.mem_flatMap.1 hl
  exact bare_formLines (h f hf) l hl

/-! ### The parts of a source -/

def opening (t : Tables) : List Line :=
  preamble ++ [arrayLine "ASM_REGISTERS" "(&str, u8)" t.registers.length]

def middle (t : Tables) : List Line :=
  [⟨0, ""⟩, arrayLine "INSTR_NAMES" "(&str, u8)" t.instructions.length]

def closing (t : Tables) : List Line :=
  [⟨0, ""⟩, declarationLine t] ++ t.instructions.flatMap instructionLines ++ [⟨0, "];"⟩]

/-- The line that ends an array. -/
def stop : Line :=
  ⟨0, "];"⟩

variable {t : Tables}

theorem lines_eq (h : ∀ name ∈ t.names, Document.IsName name) :
    lines t = sourceLines (Cell.line .round) stop t (opening t) (middle t) (closing t) := by
  rw [lines, map_registerLine h, map_indexLine h, sourceLines, opening, middle, closing, stop, declarationLine]
  simp only [List.append_assoc, List.cons_append, List.nil_append]

theorem bare_arrayLine {name element : String} (hname : Bare name.toList) (helement : Bare element.toList)
    (length : Nat) : (arrayLine name element length).Bare := by
  refine Line.bare_of_text ?_ (by simp [arrayLine])
  simp only [arrayLine, String.toList_append, bare_append_iff]
  exact ⟨⟨⟨⟨⟨⟨by decide, hname⟩, by decide⟩, helement⟩, by decide⟩, (isWord_decimal length).bare⟩, by decide⟩

theorem bare_opening (t : Tables) : ∀ l ∈ opening t, l.Bare := by
  have hpreamble : ∀ l ∈ preamble, l.Bare := by decide
  simp only [opening, List.forall_mem_append, List.forall_mem_cons]
  exact ⟨hpreamble, bare_arrayLine (by decide) (by decide) _, by decide⟩

theorem bare_middle (t : Tables) : ∀ l ∈ middle t, l.Bare := by
  simp only [middle, List.forall_mem_cons]
  exact ⟨by decide, bare_arrayLine (by decide) (by decide) _, by decide⟩

theorem bare_closing (h : ∀ o ∈ t.opcodes, o.Spelled) : ∀ l ∈ closing t, l.Bare := by
  have hinstructions : ∀ l ∈ t.instructions.flatMap instructionLines, l.Bare := by
    intro l hl
    obtain ⟨fs, hfs, hl⟩ := List.mem_flatMap.1 hl
    exact bare_instructionLines (fun f hf o ho => h o (Tables.mem_opcodes hfs hf ho)) l hl
  simp only [closing, List.forall_mem_append, List.forall_mem_cons]
  exact ⟨⟨⟨by decide, bare_arrayLine (by decide) (by decide) _, by decide⟩, hinstructions⟩, by decide⟩

end OpcodeTables.Emit.RustSource
