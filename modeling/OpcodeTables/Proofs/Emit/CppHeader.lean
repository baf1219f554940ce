import OpcodeTables.Emit.CppHeader
import OpcodeTables.Proofs.Emit.Dialect
import OpcodeTables.Proofs.Literal

/-!
# Opcodes in C++ headers

The header of tables declares the forms of the instructions (`declares_items`), and a numeric opcode in it is a literal
that a C++ compiler reads as the opcode's byte, unless its spelling has underscores or zeros before the number
(`cpp_opcode_eq_value_iff`).
-/

namespace OpcodeTables.Emit.CppHeader

open Initializer

def dialect : Dialect where
  instructionHead := "std::vector<InstrParamList>".toList
  formHead := "InstrParamList".toList
  paramsHead := []
  variantsHead := []
  variantHead := []
  opcode o := o.source.toList
  flags f := f.symbols.toList
  kind k := ("InstrParamType::" ++ k.symbol).toList
  type ty := ty.symbol.toList

/-- The declaration of the forms, up to the bracket that opens them. -/
def declarationLine (t : Tables) : Line :=
  ⟨0, "const std::array<std::vector<InstrParamList>, " ++ Text.decimal t.instructions.length ++ "> INSTR_ASM_DEFS \x7b"⟩

/-! ### Lines -/

theorem adds_variantLine {v : Tables.VariantEntry} (h : v.opcode.Spelled) :
    Adds (variantLine v).chars [dialect.variantItem v] := by
  have htype : Plain v.type.symbol.toList ∧ v.type.symbol.toList ≠ [] := by cases v.type <;> decide
  have hfirst := (adds_word htype.1 htype.2 blank_nil).append (adds_blank blank_space)
  have hsecond := fills_word h.plain_source h.source_ne_nil blank_nil
  have hgroup := adds_group plain_nil blank_nil curly_opens curly_closes (hfirst.append_fills hsecond)
  have htext : (variantLine v).text.toList =
      [] ++ ([] ++ '\x7b' :: (v.type.symbol.toList ++ ([] ++ [',']) ++ [' '] ++ (v.opcode.source.toList ++ []))) ++
        ['\x7d'] ++ [','] := by
    simp [variantLine]
  refine adds_line ?_
  rw [htext]
  exact hgroup.append adds_comma

theorem adds_paramLines (kinds : List OperandKind) :
    Adds ((paramLines kinds).flatMap Line.chars) (kinds.map fun k => .word (dialect.kind k)) := by
  have hkind : ∀ k ∈ kinds, Adds ("InstrParamType::" ++ k.symbol ++ ",").toList [.word (dialect.kind k)] := by
    intro k _
    have hk : Plain (dialect.kind k) ∧ dialect.kind k ≠ [] := by cases k <;> decide
    have h := adds_word hk.1 hk.2 blank_nil
    rwa [String.toList_append]
  cases kinds with
  | nil => exact adds_blank blank_nil
  | cons k kinds =>
    rw [paramLines, List.isEmpty_cons, if_neg (by decide), List.flatMap_singleton]
    refine adds_line ?_
    rw [String.toList_intercalate, List.map_map]
    exact Adds.intercalate (adds_blank blank_space) hkind

theorem adds_formLines {f : Tables.Form} (h : ∀ o ∈ f.opcodes, o.Spelled) :
    Adds ((formLines f).flatMap Line.chars) [dialect.formItem f] := by
  have hself := h f.opcode List.mem_cons_self
  have hopcode : Adds (Line.chars ⟨3, f.opcode.source ++ ","⟩) [.word (dialect.opcode f.opcode)] :=
    adds_word_line hself.plain_source hself.source_ne_nil String.toList_append
  have hsymbols : Plain f.flags.symbols.toList ∧ f.flags.symbols.toList ≠ [] := by
    obtain ⟨a, b⟩ := f.flags
    cases a <;> cases b <;> decide
  have hflags : Adds (Line.chars ⟨3, f.flags.symbols ++ ","⟩) [.word (dialect.flags f.flags)] :=
    adds_word_line hsymbols.1 hsymbols.2 String.toList_append
  have hparams : Adds ((⟨3, "\x7b"⟩ :: paramLines f.params ++ [⟨3, "\x7d,"⟩] : List Line).flatMap Line.chars)
      [.group [] (f.params.map fun k => .word (dialect.kind k))] :=
    adds_group_lines plain_nil blank_nil curly_opens curly_closes (adds_paramLines f.params) rfl rfl
  have hvariant : ∀ v ∈ f.variants, Adds (variantLine v).chars [dialect.variantItem v] :=
    fun v hv => adds_variantLine (h v.opcode (List.mem_cons_of_mem _ (List.mem_map_of_mem hv)))
  have hvariants :
      Adds ((⟨3, "\x7b"⟩ :: f.variants.map variantLine ++ [⟨3, "\x7d,"⟩] : List Line).flatMap Line.chars)
        [.group [] (f.variants.map dialect.variantItem)] :=
    adds_group_lines plain_nil blank_nil curly_opens curly_closes (Adds.map_lines hvariant) rfl rfl
  have hbody := hopcode.cons_line (hflags.cons_line (hparams.append_lines hvariants))
  have hlines : formLines f =
      ⟨2, "InstrParamList\x7b"⟩ :: (⟨3, f.opcode.source ++ ","⟩ :: ⟨3, f.flags.symbols ++ ","⟩ ::
        ((⟨3, "\x7b"⟩ :: paramLines f.params ++ [⟨3, "\x7d,"⟩]) ++
          (⟨3, "\x7b"⟩ :: f.variants.map variantLine ++ [⟨3, "\x7d,"⟩]))) ++ [⟨2, "\x7d,"⟩] := by
    simp only [formLines, List.append_assoc, List.cons_append, List.nil_append]
  rw [hlines]
  exact adds_group_lines (show Plain dialect.formHead by decide) blank_nil curly_opens curly_closes hbody rfl rfl

theorem adds_instructionLines {fs : List Tables.Form} (h : ∀ f ∈ fs, ∀ o ∈ f.opcodes, o.Spelled) :
    Adds ((instructionLines fs).flatMap Line.chars) [dialect.instructionItem fs] := by
  have hforms : Adds ((fs.flatMap formLines).flatMap Line.chars) (fs.map dialect.formItem) :=
    Adds.flatMap_lines fun f hf => adds_formLines (h f hf)
  exact adds_group_lines (show Plain dialect.instructionHead by decide) blank_nil curly_opens curly_closes hforms
    rfl rfl

theorem adds_items {t : Tables} (h : ∀ o ∈ t.opcodes, o.Spelled) :
    Adds ((t.instructions.flatMap instructionLines).flatMap Line.chars) (dialect.items t) :=
  Adds.flatMap_lines fun _ hfs => adds_instructionLines fun _ hf o ho => h o (Tables.mem_opcodes hfs hf ho)

/-! ### The header -/

/-- The header declares the forms of the instructions, whatever its namespace is. -/
theorem declares_items {t : Tables} (h : ∀ o ∈ t.opcodes, o.Spelled) (namespaceName : String) :
    Declares (text t namespaceName).toList (declarationLine t).text.toList .curly (dialect.items t) := by
  have hlast : Line.chars ⟨0, "\x7d;"⟩ = '\x7d' :: [';', '\n'] := by decide
  have hlines : lines t namespaceName =
      (preamble ++ ⟨0, "const std::map<std::string, uint8_t> ASM_REGISTERS \x7b"⟩ :: t.registers.map registerLine ++
        [⟨0, "\x7d;"⟩, ⟨0, ""⟩, ⟨0, "namespace " ++ namespaceName ++ " \x7b"⟩,
         ⟨0, "const std::map<std::string, uint8_t> INSTR_NAMES \x7b"⟩] ++ t.index.map indexLine ++
        [⟨0, "\x7d;"⟩, ⟨0, ""⟩]) ++
      declarationLine t :: t.instructions.flatMap instructionLines ++
      ⟨0, "\x7d;"⟩ :: [⟨0, ""⟩, ⟨0, "\x7d // namespace " ++ namespaceName⟩] := by
    simp only [lines, declarationLine, List.append_assoc, List.cons_append, List.nil_append]
  rw [text, hlines]
  exact declares_of_lines curly_closes (adds_items h) _ _ hlast

/-- In the header of a description, the word of an opcode with a byte is a literal of this byte for a C++ compiler
exactly when it has no underscores, and no zero before other digits unless the byte is less than eight. -/
theorem cpp_opcode_eq_value_iff {s : List UInt8} {policy : VariantPolicy} {d : Description} {t : Tables}
    (hload : Description.load s = .ok d) (hbuild : d.tables policy = .ok t) (namespaceName : String) :
    ∃ items, Declares (text t namespaceName).toList (declarationLine t).text.toList .curly items ∧
      ∀ p o v, t.opcodeAt? p = some o → o.value? = some v →
        Item.word? items p.path = some o.source.toList ∧
        (Literal.cpp? o.source.toList = some v.toNat ↔
          '_' ∉ o.source.toList ∧ (Literal.IsPadded o.source.toList → v.toNat < 8)) := by
  have hspelled := Description.spelled_of_tables hload hbuild
  refine ⟨dialect.items t, declares_items hspelled namespaceName, fun p o v ho hv => ⟨dialect.word?_items ho, ?_⟩⟩
  exact Literal.cpp?_eq_some_iff ((hspelled o (Tables.mem_opcodes_of_opcodeAt? ho)).read?_source hv)

/-- A hexadecimal opcode, and a variant with a zero before its digit. -/
theorem cpp_opcode_eq_value_iff_padded_digit :
    let s := Utf8.encode ("\x7b\"registers\": [], \"instructions\": [\x7b\"name\": \"add\", \"paramList\": [" ++
      "\x7b\"opcode\": \"0xA0\", \"encodeType\": true, \"params\": [\"iT\"], " ++
      "\"typeVariants\": [\x7b\"type\": \"i8\", \"opcode\": \"07\"\x7d]\x7d]\x7d]\x7d")
    ∃ d t items, Description.load s = .ok d ∧ d.tables .strict = .ok t ∧
      Declares (text t "Asm").toList (declarationLine t).text.toList .curly items ∧
      Item.word? items [0, 0, 0] = some "0xA0".toList ∧ Literal.cpp? "0xA0".toList = some 0xA0 ∧
      Item.word? items [0, 0, 3, 0, 1] = some "07".toList ∧ Literal.cpp? "07".toList = some 7 := by
  intro s
  let d : Description := ⟨[], [⟨"add", [⟨.literal 0xA0 "0xA0", true, ["iT"], [⟨"i8", .literal 7 "07"⟩]⟩]⟩]⟩
  let t : Tables :=
    ⟨[], [⟨"add", 0⟩], [[⟨.literal 0xA0 "0xA0", ⟨true, true⟩, [.intType], [⟨.i8, .literal 7 "07"⟩]⟩]]⟩
  have hload : Description.load s = .ok d := toOption_eq_some_iff.1 (by decide +kernel)
  have hbuild : d.tables .strict = .ok t := rfl
  obtain ⟨items, hitems, h⟩ := cpp_opcode_eq_value_iff hload hbuild "Asm"
  have hform := h (.form 0 0) (.literal 0xA0 "0xA0") 0xA0 rfl rfl
  have hvariant := h (.variant 0 0 0) (.literal 7 "07") 7 rfl rfl
  have hpadded : ¬ Literal.IsPadded "0xA0".toList := by
    rintro ⟨c, ds, he, hc⟩
    cases he
    cases hc
  exact ⟨d, t, items, hload, hbuild, hitems, hform.1, hform.2.2 ⟨by decide, fun h => absurd h hpadded⟩, hvariant.1,
    hvariant.2.2 ⟨by decide, fun _ => by decide⟩⟩

/-- An opcode with a zero before its digits is read as an octal number, and a variant with an underscore is no literal;
both have the value ten. -/
theorem cpp_opcode_padded_or_separated :
    let s := Utf8.encode ("\x7b\"registers\": [], \"instructions\": [\x7b\"name\": \"add\", \"paramList\": [" ++
      "\x7b\"opcode\": \"010\", \"encodeType\": true, \"params\": [\"iT\"], " ++
      "\"typeVariants\": [\x7b\"type\": \"i8\", \"opcode\": \"1_0\"\x7d]\x7d]\x7d]\x7d")
    ∃ d t items, Description.load s = .ok d ∧ d.tables .strict = .ok t ∧
      Declares (text t "Asm").toList (declarationLine t).text.toList .curly items ∧
      t.opcodeAt? (.form 0 0) = some (.literal 10 "010") ∧ Item.word? items [0, 0, 0] = some "010".toList ∧
      Literal.cpp? "010".toList = some 8 ∧
      t.opcodeAt? (.variant 0 0 0) = some (.literal 10 "1_0") ∧ Item.word? items [0, 0, 3, 0, 1] = some "1_0".toList ∧
      Literal.cpp? "1_0".toList = none := by
  intro s
  let d : Description := ⟨[], [⟨"add", [⟨.literal 10 "010", true, ["iT"], [⟨"i8", .literal 10 "1_0"⟩]⟩]⟩]⟩
  let t : Tables :=
    ⟨[], [⟨"add", 0⟩], [[⟨.literal 10 "010", ⟨true, true⟩, [.intType], [⟨.i8, .literal 10 "1_0"⟩]⟩]]⟩
  have hload : Description.load s = .ok d := toOption_eq_some_iff.1 (by decide +kernel)
  have hbuild : d.tables .strict = .ok t := rfl
  have hitems := declares_items (Description.spelled_of_tables hload hbuild) "Asm"
  exact ⟨d, t, dialect.items t, hload, hbuild, hitems, rfl, rfl, by decide, rfl, rfl, by decide⟩

end OpcodeTables.Emit.CppHeader
