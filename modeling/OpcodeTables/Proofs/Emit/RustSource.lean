import OpcodeTables.Emit.RustSource
import OpcodeTables.Proofs.Emit.Dialect
import OpcodeTables.Proofs.Literal

/-!
# Opcodes in Rust sources

The source of tables declares the forms of the instructions (`declares_items`), and a numeric opcode in it is a literal
that a Rust compiler reads as the opcode's byte, unless its prefix has a capital letter (`rust_opcode_eq_value_iff`).
-/

namespace OpcodeTables.Emit.RustSource

open Initializer

def opcodeLabel : List Char :=
  "opcode: ".toList

def dialect : Dialect where
  instructionHead := ['&']
  formHead := "InstrParamList".toList
  paramsHead := "params: &".toList
  variantsHead := "opcode_variants: &".toList
  variantHead := "TypeVariant".toList
  opcode o := opcodeLabel ++ o.source.toList
  flags f := "flags: ".toList ++ f.symbols.toList
  kind k := "InstrParamType::".toList ++ k.name.toList
  type ty := "ty: ".toList ++ ty.symbol.toList

/-- The declaration of the forms, up to the bracket that opens them. -/
def declarationLine (t : Tables) : Line :=
  arrayLine "INSTR_ASM_DEFS" "&[InstrParamList]" t.instructions.length

/-! ### Lines -/

private theorem plain_opcode {o : Opcode} (h : o.Spelled) : Plain (dialect.opcode o) ∧ dialect.opcode o ≠ [] := by
  refine ⟨h.plain_source.labelled h.source_ne_nil (c := 'o') (a := "pcode: ".toList) (by decide) (by decide), ?_⟩
  exact List.append_ne_nil_of_left_ne_nil (by decide) _

theorem adds_variantLine {v : Tables.VariantEntry} (h : v.opcode.Spelled) :
    Adds (variantLine v).chars [dialect.variantItem v] := by
  have hopcode := plain_opcode h
  have htype : Plain (dialect.type v.type) ∧ dialect.type v.type ≠ [] := by cases v.type <;> decide
  have hfirst := ((adds_blank blank_space).append (adds_word htype.1 htype.2 blank_nil)).append (adds_blank blank_space)
  have hsecond := fills_word hopcode.1 hopcode.2 blank_space
  have hgroup := adds_group (show Plain dialect.variantHead by decide) blank_space curly_opens curly_closes
    (hfirst.append_fills hsecond)
  have htext : (variantLine v).text.toList =
      dialect.variantHead ++ ([' '] ++ '\x7b' :: ([' '] ++ (dialect.type v.type ++ ([] ++ [','])) ++ [' '] ++
        (dialect.opcode v.opcode ++ [' ']))) ++ ['\x7d'] ++ [','] := by
    have hbefore : "TypeVariant \x7b ty: ".toList =
        dialect.variantHead ++ ([' '] ++ '\x7b' :: ([' '] ++ "ty: ".toList)) := by decide
    have hbetween : ", opcode: ".toList = [','] ++ ([' '] ++ opcodeLabel) := by decide
    have hafter : " \x7d,".toList = [' '] ++ (['\x7d'] ++ [',']) := by decide
    have htype : dialect.type v.type = "ty: ".toList ++ v.type.symbol.toList := rfl
    have hopcode : dialect.opcode v.opcode = opcodeLabel ++ v.opcode.source.toList := rfl
    rw [variantLine, htype, hopcode]
    simp only [String.toList_append, hbefore, hbetween, hafter, List.append_assoc, List.cons_append, List.nil_append]
  refine adds_line ?_
  rw [htext]
  exact hgroup.append adds_comma

theorem adds_paramsLine (kinds : List OperandKind) :
    Adds (paramsLine kinds).chars [.group dialect.paramsHead (kinds.map fun k => .word (dialect.kind k))] := by
  have hkind : ∀ k, Plain (dialect.kind k) ∧ dialect.kind k ≠ [] := fun k => by cases k <;> decide
  have hfills := fills_intercalate (fun k => (hkind k).1) (fun k => (hkind k).2) kinds
  have hgroup := adds_group (show Plain dialect.paramsHead by decide) blank_nil square_opens square_closes hfills
  have htext : (paramsLine kinds).text.toList =
      dialect.paramsHead ++ ([] ++ '[' :: [',', ' '].intercalate (kinds.map dialect.kind)) ++ [']'] ++ [','] := by
    have hbefore : "params: &[".toList = dialect.paramsHead ++ ([] ++ ['[']) := by decide
    have hafter : "],".toList = [']'] ++ [','] := by decide
    have hsep : ", ".toList = [',', ' '] := by decide
    have hkinds : (kinds.map fun k => "InstrParamType::" ++ k.name).map String.toList = kinds.map dialect.kind := by
      rw [List.map_map]
      exact List.map_congr_left fun k _ => String.toList_append
    rw [paramsLine]
    simp only [String.toList_append, String.toList_intercalate, hbefore, hafter, hsep, hkinds, List.append_assoc,
      List.cons_append, List.nil_append]
  refine adds_line ?_
  rw [htext]
  exact hgroup.append adds_comma

theorem adds_variantLines {vs : List Tables.VariantEntry} (h : ∀ v ∈ vs, v.opcode.Spelled) :
    Adds ((variantLines vs).flatMap Line.chars) [.group dialect.variantsHead (vs.map dialect.variantItem)] := by
  have hhead : Plain dialect.variantsHead := by decide
  cases vs with
  | nil =>
    have hgroup := adds_group hhead blank_nil square_opens square_closes fills_nil
    rw [variantLines, List.isEmpty_nil, if_pos rfl, List.flatMap_singleton]
    exact adds_line (hgroup.append adds_comma)
  | cons v vs =>
    rw [variantLines, List.isEmpty_cons, if_neg (by decide)]
    have hvariants := Adds.map_lines fun v hv => adds_variantLine (h v hv)
    exact adds_group_lines hhead blank_nil square_opens square_closes hvariants rfl rfl

theorem adds_formLines {f : Tables.Form} (h : ∀ o ∈ f.opcodes, o.Spelled) :
    Adds ((formLines f).flatMap Line.chars) [dialect.formItem f] := by
  have hopcode := plain_opcode (h f.opcode List.mem_cons_self)
  have hopcodeLine : Adds (Line.chars ⟨3, "opcode: " ++ f.opcode.source ++ ","⟩) [.word (dialect.opcode f.opcode)] :=
    adds_word_line hopcode.1 hopcode.2 (by rw [String.toList_append, String.toList_append]; rfl)
  have hflags : Plain (dialect.flags f.flags) ∧ dialect.flags f.flags ≠ [] := by
    obtain ⟨a, b⟩ := f.flags
    cases a <;> cases b <;> decide
  have hflagsLine : Adds (Line.chars ⟨3, "flags: " ++ f.flags.symbols ++ ","⟩) [.word (dialect.flags f.flags)] :=
    adds_word_line hflags.1 hflags.2 (by rw [String.toList_append, String.toList_append]; rfl)
  have hvariants := adds_variantLines fun v hv => h v.opcode (List.mem_cons_of_mem _ (List.mem_map_of_mem hv))
  have hbody := hopcodeLine.cons_line (hflagsLine.cons_line ((adds_paramsLine f.params).cons_line hvariants))
  have hlines : formLines f =
      ⟨2, "InstrParamList \x7b"⟩ :: (⟨3, "opcode: " ++ f.opcode.source ++ ","⟩ ::
        ⟨3, "flags: " ++ f.flags.symbols ++ ","⟩ :: paramsLine f.params :: variantLines f.variants) ++
          [⟨2, "\x7d,"⟩] := by
    simp only [formLines, List.cons_append, List.nil_append]
  rw [hlines]
  exact adds_group_lines (show Plain dialect.formHead by decide) blank_space curly_opens curly_closes hbody rfl rfl

theorem adds_instructionLines {fs : List Tables.Form} (h : ∀ f ∈ fs, ∀ o ∈ f.opcodes, o.Spelled) :
    Adds ((instructionLines fs).flatMap Line.chars) [dialect.instructionItem fs] := by
  have hforms : Adds ((fs.flatMap formLines).flatMap Line.chars) (fs.map dialect.formItem) :=
    Adds.flatMap_lines fun f hf => adds_formLines (h f hf)
  exact adds_group_lines (show Plain dialect.instructionHead by decide) blank_nil square_opens square_closes hforms
    rfl rfl

theorem adds_items {t : Tables} (h : ∀ o ∈ t.opcodes, o.Spelled) :
    Adds ((t.instructions.flatMap instructionLines).flatMap Line.chars) (dialect.items t) :=
  Adds.flatMap_lines fun _ hfs => adds_instructionLines fun _ hf o ho => h o (Tables.mem_opcodes hfs hf ho)

/-! ### The source -/

/-- The source declares the forms of the instructions. -/
theorem declares_items {t : Tables} (h : ∀ o ∈ t.opcodes, o.Spelled) :
    Declares (text t).toList (declarationLine t).text.toList .square (dialect.items t) := by
  have hlast : Line.chars ⟨0, "];"⟩ = ']' :: [';', '\n'] := by decide
  have hlines : lines t =
      (preamble ++ arrayLine "ASM_REGISTERS" "(&str, u8)" t.registers.length :: t.registers.map registerLine ++
        [⟨0, "];"⟩, ⟨0, ""⟩, arrayLine "INSTR_NAMES" "(&str, u8)" t.instructions.length] ++ t.index.map indexLine ++
        [⟨0, "];"⟩, ⟨0, ""⟩]) ++
      declarationLine t :: t.instructions.flatMap instructionLines ++ ⟨0, "];"⟩ :: [] := by
    simp only [lines, declarationLine, List.append_assoc, List.cons_append, List.nil_append]
  rw [text, hlines]
  exact declares_of_lines square_closes (adds_items h) _ _ hlast

/-- In the source of a description, the word of an opcode with a byte is a literal of this byte for a Rust compiler
exactly when the literal does not begin with `0X` or `0B`. -/
theorem rust_opcode_eq_value_iff {s : List UInt8} {policy : VariantPolicy} {d : Description} {t : Tables}
    (hload : Description.load s = .ok d) (hbuild : d.tables policy = .ok t) :
    ∃ items, Declares (text t).toList (declarationLine t).text.toList .square items ∧
      ∀ p o v, t.opcodeAt? p = some o → o.value? = some v →
        Item.word? items p.path = some (opcodeLabel ++ o.source.toList) ∧
        (Literal.rustByte? o.source.toList = some v.toNat ↔
          ¬ ['0', 'X'] <+: o.source.toList ∧ ¬ ['0', 'B'] <+: o.source.toList) := by
  have hspelled := Description.spelled_of_tables hload hbuild
  refine ⟨dialect.items t, declares_items hspelled, fun p o v ho hv => ⟨dialect.word?_items ho, ?_⟩⟩
  have hread := (hspelled o (Tables.mem_opcodes_of_opcodeAt? ho)).read?_source hv
  exact Literal.rustByte?_eq_some_iff hread v.toNat_lt

/-- A hexadecimal opcode, and a variant with underscores between binary digits. -/
theorem rust_opcode_eq_value_iff_separated :
    let s := Utf8.encode ("\x7b\"registers\": [], \"instructions\": [\x7b\"name\": \"add\", \"paramList\": [" ++
      "\x7b\"opcode\": \"0xA0\", \"encodeType\": true, \"params\": [\"iT\"], " ++
      "\"typeVariants\": [\x7b\"type\": \"i8\", \"opcode\": \"0b1010_0001\"\x7d]\x7d]\x7d]\x7d")
    ∃ d t items, Description.load s = .ok d ∧ d.tables .strict = .ok t ∧
      Declares (text t).toList (declarationLine t).text.toList .square items ∧
      Item.word? items [0, 0, 0] = some "opcode: 0xA0".toList ∧ Literal.rustByte? "0xA0".toList = some 0xA0 ∧
      Item.word? items [0, 0, 3, 0, 1] = some "opcode: 0b1010_0001".toList ∧
      Literal.rustByte? "0b1010_0001".toList = some 0xA1 := by
  intro s
  let d : Description :=
    ⟨[], [⟨"add", [⟨.literal 0xA0 "0xA0", true, ["iT"], [⟨"i8", .literal 0xA1 "0b1010_0001"⟩]⟩]⟩]⟩
  let t : Tables :=
    ⟨[], [⟨"add", 0⟩], [[⟨.literal 0xA0 "0xA0", ⟨true, true⟩, [.intType], [⟨.i8, .literal 0xA1 "0b1010_0001"⟩]⟩]]⟩
  have hload : Description.load s = .ok d := toOption_eq_some_iff.1 (by decide +kernel)
  have hbuild : d.tables .strict = .ok t := rfl
  obtain ⟨items, hitems, h⟩ := rust_opcode_eq_value_iff hload hbuild
  have hform := h (.form 0 0) (.literal 0xA0 "0xA0") 0xA0 rfl rfl
  have hvariant := h (.variant 0 0 0) (.literal 0xA1 "0b1010_0001") 0xA1 rfl rfl
  exact ⟨d, t, items, hload, hbuild, hitems, hform.1, hform.2.2 (by decide), hvariant.1, hvariant.2.2 (by decide)⟩

/-- An opcode whose prefix has a capital letter, and a variant with one, are no literals. -/
theorem rust_opcode_capital_prefix :
    let s := Utf8.encode ("\x7b\"registers\": [], \"instructions\": [\x7b\"name\": \"add\", \"paramList\": [" ++
      "\x7b\"opcode\": \"0XA0\", \"encodeType\": true, \"params\": [\"iT\"], " ++
      "\"typeVariants\": [\x7b\"type\": \"i8\", \"opcode\": \"0B1\"\x7d]\x7d]\x7d]\x7d")
    ∃ d t items, Description.load s = .ok d ∧ d.tables .strict = .ok t ∧
      Declares (text t).toList (declarationLine t).text.toList .square items ∧
      t.opcodeAt? (.form 0 0) = some (.literal 0xA0 "0XA0") ∧
      Item.word? items [0, 0, 0] = some "opcode: 0XA0".toList ∧ Literal.rustByte? "0XA0".toList = none ∧
      t.opcodeAt? (.variant 0 0 0) = some (.literal 1 "0B1") ∧
      Item.word? items [0, 0, 3, 0, 1] = some "opcode: 0B1".toList ∧ Literal.rustByte? "0B1".toList = none := by
  intro s
  let d : Description := ⟨[], [⟨"add", [⟨.literal 0xA0 "0XA0", true, ["iT"], [⟨"i8", .literal 1 "0B1"⟩]⟩]⟩]⟩
  let t : Tables :=
    ⟨[], [⟨"add", 0⟩], [[⟨.literal 0xA0 "0XA0", ⟨true, true⟩, [.intType], [⟨.i8, .literal 1 "0B1"⟩]⟩]]⟩
  have hload : Description.load s = .ok d := toOption_eq_some_iff.1 (by decide +kernel)
  have hbuild : d.tables .strict = .ok t := rfl
  have hitems := declares_items (Description.spelled_of_tables hload hbuild)
  exact ⟨d, t, dialect.items t, hload, hbuild, hitems, rfl, rfl, by decide, rfl, rfl, by decide⟩

end OpcodeTables.Emit.RustSource
