import OpcodeTables.Proofs.Emit.CppHeader.Lines
import OpcodeTables.Proofs.Emit.RustSource.Lines

/-!
# Sources tell their tables

Two descriptions with the same header have the same tables and namespaces (`CppHeader.cpp_text_inj`), and two with the
same Rust source have the same tables (`RustSource.rust_text_inj`).  The lines are told from the text, the entries with
names from their lines, and the forms from the items that their lines add.
-/

namespace OpcodeTables.Emit

open Document (IsName)

variable {t t' : Tables}

private theorem eq_of_parts (hregisters : t.registers = t'.registers) (hindex : t.index = t'.index)
    (hinstructions : t.instructions = t'.instructions) : t = t' := by
  obtain ⟨registers, index, instructions⟩ := t
  obtain rfl : registers = t'.registers := hregisters
  obtain rfl : index = t'.index := hindex
  obtain rfl : instructions = t'.instructions := hinstructions
  rfl

namespace CppHeader

variable {namespaceName namespaceName' : String}

theorem injective_dialect : dialect.Injective where
  opcode _ _ h h' he := h.eq_of_source_eq h' (String.toList_inj.1 he)
  flags _ _ h := Flags.symbols_injective (String.toList_inj.1 h)
  kind _ _ h := OperandKind.symbol_injective ((String.append_right_inj _).1 (String.toList_inj.1 h))
  type _ _ h := NumericType.symbol_injective (String.toList_inj.1 h)

theorem proper_lines (hnames : ∀ name ∈ t.names, IsName name) (hopcodes : ∀ o ∈ t.opcodes, o.Spelled)
    (h : Symbol.isSymbol namespaceName) : ∀ l ∈ lines t namespaceName, l.Proper := by
  rw [lines_eq]
  exact proper_sourceLines hnames (by decide) proper_opening (fun l hl => (bare_middle h l hl).toProper)
    fun l hl => (bare_closing hopcodes h l hl).toProper

theorem middle_inj (h : middle namespaceName = middle namespaceName') : namespaceName = namespaceName' := by
  simp only [middle, List.cons.injEq, Line.mk.injEq, true_and, and_true] at h
  exact (String.append_right_inj _).1 ((String.append_left_inj _).1 h)

theorem closing_inj (hopcodes : ∀ o ∈ t.opcodes, o.Spelled) (hopcodes' : ∀ o ∈ t'.opcodes, o.Spelled)
    (h : closing t namespaceName = closing t' namespaceName') : t.instructions = t'.instructions := by
  obtain ⟨hforms, -⟩ := List.append_inj' h rfl
  obtain ⟨-, hlines⟩ := List.append_inj hforms rfl
  have hadds := adds_items hopcodes
  rw [hlines] at hadds
  exact injective_dialect.items_inj hopcodes hopcodes' (hadds.unique (adds_items hopcodes'))

/-- The header of a description tells the tables and the namespace. -/
theorem cpp_text_inj {s s' : List UInt8} {policy policy' : VariantPolicy} {d d' : Description}
    (hload : Description.load s = .ok d) (hbuild : d.build policy = .ok t)
    (hload' : Description.load s' = .ok d') (hbuild' : d'.build policy' = .ok t')
    (hname : Symbol.isSymbol namespaceName) (hname' : Symbol.isSymbol namespaceName')
    (h : text t namespaceName = text t' namespaceName') : t = t' ∧ namespaceName = namespaceName' := by
  have hnames := Description.isName_of_build hload hbuild
  have hnames' := Description.isName_of_build hload' hbuild'
  have hopcodes := Description.spelled_of_build hload hbuild
  have hopcodes' := Description.spelled_of_build hload' hbuild'
  have hlines := render_inj (proper_lines hnames hopcodes hname) (proper_lines hnames' hopcodes' hname') h
  rw [lines_eq, lines_eq] at hlines
  obtain ⟨hregisters, hmiddle, hindex, hclosing⟩ := sourceLines_inj hnames hnames' rfl (by rfl) (by rfl) hlines
  exact ⟨eq_of_parts hregisters hindex (closing_inj hopcodes hopcodes' hclosing), middle_inj hmiddle⟩

/-- An opcode given as a number and as a text with blanks, under both policies. -/
theorem cpp_text_inj_blanks :
    let s := Utf8.encode ("\x7b\"registers\": [\x7b\"name\": \"r\x7b0\", \"bytecode\": 10\x7d], " ++
      "\"instructions\": [\x7b\"name\": \"add,\", \"paramList\": [\x7b\"opcode\": 160, " ++
      "\"encodeType\": true, \"params\": [\"iT\", \"iReg\"], " ++
      "\"typeVariants\": [\x7b\"type\": \"i8\", \"opcode\": \"OP\"\x7d]\x7d]\x7d]\x7d")
    let s' := Utf8.encode ("\x7b\"registers\": [\x7b\"name\": \"r\x7b0\", \"bytecode\": \"0xA\"\x7d], " ++
      "\"instructions\": [\x7b\"name\": \"add,\", \"paramList\": [\x7b\"opcode\": \" 160\", " ++
      "\"encodeType\": true, \"params\": [\"iT\", \"iReg\"], " ++
      "\"typeVariants\": [\x7b\"type\": \"i8\", \"opcode\": \"OP\"\x7d]\x7d]\x7d]\x7d")
    ∃ d d' t t', Description.load s = .ok d ∧ d.build .strict = .ok t ∧ Description.load s' = .ok d' ∧
      d'.build .lastWins = .ok t' ∧ Symbol.isSymbol "Asm" ∧ text t "Asm" = text t' "Asm" ∧ t = t' := by
  intro s s'
  let d : Description :=
    ⟨[⟨"r\x7b0", 10⟩], [⟨"add,", [⟨.literal 160 "160", true, ["iT", "iReg"], [⟨"i8", .symbol "OP"⟩]⟩]⟩]⟩
  let t : Tables :=
    ⟨[⟨"r\x7b0", 10⟩], [⟨"add,", 0⟩],
      [[⟨.literal 160 "160", ⟨true, true⟩, [.intType, .intReg], [⟨.i8, .symbol "OP"⟩]⟩]]⟩
  have hload : Description.load s = .ok d := toOption_eq_some_iff.1 (by decide +kernel)
  have hload' : Description.load s' = .ok d := toOption_eq_some_iff.1 (by decide +kernel)
  have hbuild : d.build .strict = .ok t := rfl
  have hbuild' : d.build .lastWins = .ok t := rfl
  have hname : Symbol.isSymbol "Asm" := by decide
  exact ⟨d, d, t, t, hload, hbuild, hload', hbuild', hname, rfl,
    (cpp_text_inj hload hbuild hload' hbuild' hname hname rfl).1⟩

end CppHeader

namespace RustSource

theorem injective_dialect : dialect.Injective where
  opcode _ _ h h' he := h.eq_of_source_eq h' (String.toList_inj.1 (List.append_cancel_left he))
  flags _ _ h := Flags.symbols_injective (String.toList_inj.1 (List.append_cancel_left h))
  kind _ _ h := OperandKind.name_injective (String.toList_inj.1 (List.append_cancel_left h))
  type _ _ h := NumericType.symbol_injective (String.toList_inj.1 (List.append_cancel_left h))

theorem proper_lines (hnames : ∀ name ∈ t.names, IsName name) (hopcodes : ∀ o ∈ t.opcodes, o.Spelled) :
    ∀ l ∈ lines t, l.Proper := by
  rw [lines_eq hnames]
  exact proper_sourceLines hnames (by decide) (fun l hl => (bare_opening t l hl).toProper)
    (fun l hl => (bare_middle t l hl).toProper) fun l hl => (bare_closing hopcodes l hl).toProper

theorem closing_inj (hopcodes : ∀ o ∈ t.opcodes, o.Spelled) (hopcodes' : ∀ o ∈ t'.opcodes, o.Spelled)
    (h : closing t = closing t') : t.instructions = t'.instructions := by
  obtain ⟨hforms, -⟩ := List.append_inj' h rfl
  obtain ⟨-, hlines⟩ := List.append_inj hforms rfl
  have hadds := adds_items hopcodes
  rw [hlines] at hadds
  exact injective_dialect.items_inj hopcodes hopcodes' (hadds.unique (adds_items hopcodes'))

/-- The Rust source of a description tells the tables. -/
theorem rust_text_inj {s s' : List UInt8} {policy policy' : VariantPolicy} {d d' : Description}
    (hload : Description.load s = .ok d) (hbuild : d.build policy = .ok t)
    (hload' : Description.load s' = .ok d') (hbuild' : d'.build policy' = .ok t') (h : text t = text t') : t = t' := by
  have hnames := Description.isName_of_build hload hbuild
  have hnames' := Description.isName_of_build hload' hbuild'
  have hopcodes := Description.spelled_of_build hload hbuild
  have hopcodes' := Description.spelled_of_build hload' hbuild'
  have hlines := render_inj (proper_lines hnames hopcodes) (proper_lines hnames' hopcodes') h
  rw [lines_eq hnames, lines_eq hnames'] at hlines
  obtain ⟨hregisters, -, hindex, hclosing⟩ := sourceLines_inj hnames hnames' rfl (by rfl) (by rfl) hlines
  exact eq_of_parts hregisters hindex (closing_inj hopcodes hopcodes' hclosing)

/-- An opcode given as a number and as a text with blanks, under both policies. -/
theorem rust_text_inj_blanks :
    let s := Utf8.encode ("\x7b\"registers\": [], \"instructions\": [\x7b\"name\": \"(x\", \"paramList\": [" ++
      "\x7b\"opcode\": 7, \"encodeType\": false, \"params\": [\"label\"], \"typeVariants\": []\x7d]\x7d]\x7d")
    let s' := Utf8.encode ("\x7b\"registers\": [], \"instructions\": [\x7b\"name\": \"(x\", \"paramList\": [" ++
      "\x7b\"opcode\": \"7\\t\", \"encodeType\": false, \"params\": [\"label\"], " ++
      "\"typeVariants\": []\x7d]\x7d]\x7d")
    ∃ d d' t t', Description.load s = .ok d ∧ d.build .strict = .ok t ∧ Description.load s' = .ok d' ∧
      d'.build .lastWins = .ok t' ∧ text t = text t' ∧ t = t' := by
  intro s s'
  let d : Description := ⟨[], [⟨"(x", [⟨.literal 7 "7", false, ["label"], []⟩]⟩]⟩
  let t : Tables := ⟨[], [⟨"(x", 0⟩], [[⟨.literal 7 "7", ⟨false, false⟩, [.labelId], []⟩]]⟩
  have hload : Description.load s = .ok d := toOption_eq_some_iff.1 (by decide +kernel)
  have hload' : Description.load s' = .ok d := toOption_eq_some_iff.1 (by decide +kernel)
  have hbuild : d.build .strict = .ok t := rfl
  have hbuild' : d.build .lastWins = .ok t := rfl
  exact ⟨d, d, t, t, hload, hbuild, hload', hbuild', rfl, rust_text_inj hload hbuild hload' hbuild' rfl⟩

end RustSource

end OpcodeTables.Emit
