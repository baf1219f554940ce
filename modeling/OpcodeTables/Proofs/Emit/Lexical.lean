import OpcodeTables.Proofs.Emit.Brackets
import OpcodeTables.Proofs.Emit.CppHeader.Lines
import OpcodeTables.Proofs.Emit.Quotes
import OpcodeTables.Proofs.Emit.RustSource.Lines

/-!
# Sources between their quotes

The sources of a description quote its names and nothing else but the included file, and outside the quotes their
brackets are nested and their arrays have the lengths that they are declared with (`lexical_of_load`).  What is outside
quotes is the text of the lines without names (`bareLines`), which are read as items like the lines of the forms.
-/

namespace OpcodeTables.Emit

open Document (IsName)
open Initializer

/-- The quoted parts of a source are the given texts, its quotes come in pairs, and its brackets outside quotes are
nested. -/
structure Lexical (source : List Char) (quoted : List String) : Prop where
  inside : insideQuotes source = quoted.map String.toList
  even : Even (source.count '"')
  balanced : Balanced (outsideQuotes source)

/-- Outside quotes the source declares an array, with the length between the two texts, and initializes it by as many
items. -/
def DeclaresLength (source : List Char) (before after : String) (b : Bracket) (length : Nat) : Prop :=
  ∃ items, Declares (outsideQuotes source) (before ++ Text.decimal length ++ after).toList b items ∧
    items.length = length

/-! ### Entries without their names -/

namespace Cell

def item (x : Cell) : Item :=
  .group [] [.word x.number]

theorem adds_bareLine {b : Bracket} {x : Cell} (hx : x.Valid) : Adds (x.bareLine b).chars [x.item] := by
  have hopens : mark? b.openChar = some (.opening b) := mark?_eq_opening_iff.2 rfl
  have hcloses : mark? b.closeChar = some (.closing b) := mark?_eq_closing_iff.2 rfl
  have hnumber := fills_word hx.number.plain hx.ne_nil blank_nil
  have hbody := adds_comma.append_fills ((adds_blank blank_space).append_fills hnumber)
  have hgroup := (adds_group plain_nil blank_nil hopens hcloses hbody).append adds_comma
  refine adds_line ?_
  rw [bareLine, String.toList_ofList, item]
  simpa using hgroup

theorem adds_bareLines {b : Bracket} {xs : List Cell} (h : ∀ x ∈ xs, x.Valid) :
    Adds ((xs.map (bareLine b)).flatMap Line.chars) (xs.map item) :=
  Adds.map_lines fun x hx => adds_bareLine (h x hx)

end Cell

theorem unclosed_sourceLines {b : Bracket} {stop : Line} {t : Tables} {opening middle closing : List Line}
    {stack stack' : List Bracket} (hnames : ∀ name ∈ t.names, IsName name)
    (hopening : unclosed [] (opening.flatMap Line.chars) = some stack)
    (hmiddle : unclosed stack ((stop :: middle).flatMap Line.chars) = some stack')
    (hclosing : unclosed stack' ((stop :: closing).flatMap Line.chars) = some []) :
    unclosed [] (render (sourceLines (Cell.bareLine b) stop t opening middle closing)).toList = some [] := by
  have hregisters := (Cell.adds_bareLines (b := b) (Tables.valid_registerCells hnames)).unclosed_eq stack
  have hindex := (Cell.adds_bareLines (b := b) (Tables.valid_indexCells hnames)).unclosed_eq stack'
  rw [render, String.toList_ofList, sourceLines, unclosed_append_lines hopening, unclosed_append_lines hregisters,
    ← List.cons_append, unclosed_append_lines hmiddle, unclosed_append_lines hindex, hclosing]

variable {t : Tables} {namespaceName : String}

/-! ### The header -/

namespace CppHeader

/-- The first lines without the name of the included file. -/
def bareOpening : List Line :=
  opening.take 5 ++ ⟨0, "#include "⟩ :: opening.drop 6

/-- The lines without what is quoted. -/
def bareLines (t : Tables) (namespaceName : String) : List Line :=
  sourceLines (Cell.bareLine .curly) stop t bareOpening (middle namespaceName) (closing t namespaceName)

theorem cuts_opening :
    Cuts (opening.flatMap Line.chars) ["asm.hpp".toList] (bareOpening.flatMap Line.chars) := by
  have hbefore : ∀ l ∈ opening.take 5, l.Bare := by decide
  have hbehind : ∀ l ∈ opening.drop 6, l.Bare := by decide
  have hdirective : Cuts "#include ".toList [] "#include ".toList := cuts_unquoted (by decide)
  have hfile : Cuts "\"asm.hpp\"".toList ["asm.hpp".toList] [] :=
    cuts_quoted (s := "asm.hpp".toList) (by decide)
  have hinclude : Cuts (Line.chars ⟨0, "#include \"asm.hpp\""⟩) ["asm.hpp".toList] (Line.chars ⟨0, "#include "⟩) :=
    (hdirective.append hfile).append (cuts_unquoted (s := ['\n']) (by decide))
  have hlines : opening = opening.take 5 ++ ⟨0, "#include \"asm.hpp\""⟩ :: opening.drop 6 := rfl
  have hall := (cuts_lines hbefore).append (hinclude.append (cuts_lines hbehind))
  rw [hlines, bareOpening, List.flatMap_append, List.flatMap_append, List.flatMap_cons, List.flatMap_cons]
  exact hall

theorem cuts_text (hnames : ∀ name ∈ t.names, IsName name) (hopcodes : ∀ o ∈ t.opcodes, o.Spelled)
    (h : Symbol.isSymbol namespaceName) :
    Cuts (text t namespaceName).toList (("asm.hpp" :: t.names).map String.toList)
      (render (bareLines t namespaceName)).toList := by
  rw [text, lines_eq]
  exact cuts_sourceLines hnames (by decide) cuts_opening (bare_middle h) (bare_closing hopcodes h)

theorem unclosed_stop (stack : List Bracket) : unclosed (.curly :: stack) stop.text.toList = some stack := by
  rfl

theorem unclosed_middle (h : Symbol.isSymbol namespaceName) :
    unclosed [.curly] ((stop :: middle namespaceName).flatMap Line.chars) = some [.curly, .curly] := by
  let opens : Line := ⟨0, "namespace " ++ namespaceName ++ " \x7b"⟩
  let index : Line := ⟨0, "const std::map<std::string, uint8_t> INSTR_NAMES \x7b"⟩
  have hopens : unclosed [] opens.text.toList = some [.curly] := by
    have hbefore : unclosed [] "namespace ".toList = some [] := rfl
    rw [String.toList_append, String.toList_append, unclosed_append, unclosed_append, hbefore, Option.bind_some,
      unclosed_of_unmarked (isWord_of_isSymbol h).plain.unmarked]
    rfl
  have hindex : unclosed [.curly] index.text.toList = some [.curly, .curly] := by
    dsimp only [index]
    rfl
  calc unclosed [.curly] ((stop :: middle namespaceName).flatMap Line.chars)
      = unclosed [] ((⟨0, ""⟩ :: [opens, index]).flatMap Line.chars) := unclosed_cons_line (unclosed_stop []) _
    _ = unclosed [] ([opens, index].flatMap Line.chars) := unclosed_cons_line (unclosed_blank []) _
    _ = unclosed [.curly] ([index].flatMap Line.chars) := unclosed_cons_line hopens _
    _ = some [.curly, .curly] := unclosed_cons_line hindex []

theorem unclosed_closing (hopcodes : ∀ o ∈ t.opcodes, o.Spelled) (h : Symbol.isSymbol namespaceName) :
    unclosed [.curly, .curly] ((stop :: closing t namespaceName).flatMap Line.chars) = some [] := by
  let forms : List Line := t.instructions.flatMap instructionLines
  let ends : Line := ⟨0, "\x7d // namespace " ++ namespaceName⟩
  have hdeclaration : unclosed [.curly] (declarationLine t).text.toList = some [.curly, .curly] := by
    have hbefore : unclosed [.curly] "const std::array<std::vector<InstrParamList>, ".toList = some [.curly] := rfl
    rw [declarationLine, String.toList_append, String.toList_append, unclosed_append, unclosed_append, hbefore,
      Option.bind_some, unclosed_of_unmarked (isWord_decimal _).plain.unmarked]
    rfl
  have hforms : unclosed [.curly, .curly] (forms.flatMap Line.chars) = some [.curly, .curly] :=
    (adds_items hopcodes).unclosed_eq _
  have hends : unclosed [.curly] ends.text.toList = some [] := by
    have hbefore : unclosed [.curly] "\x7d // namespace ".toList = some [] := rfl
    rw [String.toList_append, unclosed_append, hbefore, Option.bind_some,
      unclosed_of_unmarked (isWord_of_isSymbol h).plain.unmarked]
  calc unclosed [.curly, .curly] ((stop :: closing t namespaceName).flatMap Line.chars)
      = unclosed [.curly] ((⟨0, ""⟩ :: declarationLine t :: (forms ++ [stop, ⟨0, ""⟩, ends])).flatMap Line.chars) :=
        unclosed_cons_line (unclosed_stop _) _
    _ = unclosed [.curly] ((declarationLine t :: (forms ++ [stop, ⟨0, ""⟩, ends])).flatMap Line.chars) :=
        unclosed_cons_line (unclosed_blank _) _
    _ = unclosed [.curly, .curly] ((forms ++ [stop, ⟨0, ""⟩, ends]).flatMap Line.chars) :=
        unclosed_cons_line hdeclaration _
    _ = unclosed [.curly, .curly] ([stop, ⟨0, ""⟩, ends].flatMap Line.chars) := unclosed_append_lines hforms _
    _ = unclosed [.curly] ([⟨0, ""⟩, ends].flatMap Line.chars) := unclosed_cons_line (unclosed_stop _) _
    _ = unclosed [.curly] ([ends].flatMap Line.chars) := unclosed_cons_line (unclosed_blank _) _
    _ = some [] := unclosed_cons_line hends []

theorem unclosed_bareLines (hnames : ∀ name ∈ t.names, IsName name) (hopcodes : ∀ o ∈ t.opcodes, o.Spelled)
    (h : Symbol.isSymbol namespaceName) : unclosed [] (render (bareLines t namespaceName)).toList = some [] :=
  unclosed_sourceLines hnames (by decide +kernel) (unclosed_middle h) (unclosed_closing hopcodes h)

theorem declares_bareLines (hopcodes : ∀ o ∈ t.opcodes, o.Spelled) (namespaceName : String) :
    Declares (render (bareLines t namespaceName)).toList (declarationLine t).text.toList .curly (dialect.items t) := by
  have hlines : bareLines t namespaceName =
      (bareOpening ++ t.registerCells.map (Cell.bareLine .curly) ++ stop :: middle namespaceName ++
        t.indexCells.map (Cell.bareLine .curly) ++ [stop, ⟨0, ""⟩]) ++
      declarationLine t :: t.instructions.flatMap instructionLines ++
      ⟨0, "\x7d;"⟩ :: [⟨0, ""⟩, ⟨0, "\x7d // namespace " ++ namespaceName⟩] := by
    simp only [bareLines, sourceLines, closing, List.append_assoc, List.cons_append, List.nil_append]
  rw [hlines]
  exact declares_of_lines curly_closes (adds_items hopcodes) _ _ (show _ = '\x7d' :: [';', '\n'] by decide)

end CppHeader

/-! ### The Rust source -/

namespace RustSource

/-- The lines without what is quoted. -/
def bareLines (t : Tables) : List Line :=
  sourceLines (Cell.bareLine .round) stop t (opening t) (middle t) (closing t)

theorem cuts_text (hnames : ∀ name ∈ t.names, IsName name) (hopcodes : ∀ o ∈ t.opcodes, o.Spelled) :
    Cuts (text t).toList (t.names.map String.toList) (render (bareLines t)).toList := by
  rw [text, lines_eq hnames]
  exact cuts_sourceLines hnames (by decide) (cuts_lines (bare_opening t)) (bare_middle t) (bare_closing hopcodes)

theorem unclosed_arrayLine {name element : String} (hname : unclosed [] name.toList = some [])
    (helement : unclosed [.square] element.toList = some [.square]) (length : Nat) :
    unclosed [] (arrayLine name element length).text.toList = some [.square] := by
  have hfirst : unclosed [] "pub static ".toList = some [] := rfl
  have hopens : unclosed [] ": [".toList = some [.square] := rfl
  have hbetween : unclosed [.square] "; ".toList = some [.square] := rfl
  have hlength : unclosed [.square] (Text.decimal length).toList = some [.square] :=
    unclosed_of_unmarked (isWord_decimal length).plain.unmarked
  simp only [arrayLine, String.toList_append, unclosed_append, hfirst, Option.bind_some, hname, hopens, helement,
    hbetween, hlength]
  rfl

theorem unclosed_stop (stack : List Bracket) : unclosed (.square :: stack) stop.text.toList = some stack := by
  rfl

theorem unclosed_opening (t : Tables) : unclosed [] ((opening t).flatMap Line.chars) = some [.square] := by
  have hpreamble : unclosed [] (preamble.flatMap Line.chars) = some [] := by decide +kernel
  rw [opening, unclosed_append_lines hpreamble]
  exact unclosed_cons_line (unclosed_arrayLine rfl rfl _) []

theorem unclosed_middle (t : Tables) : unclosed [.square] ((stop :: middle t).flatMap Line.chars) = some [.square] := by
  rw [unclosed_cons_line (unclosed_stop []), middle, unclosed_cons_line (unclosed_blank [])]
  exact unclosed_cons_line (unclosed_arrayLine rfl rfl _) []

theorem unclosed_closing (hopcodes : ∀ o ∈ t.opcodes, o.Spelled) :
    unclosed [.square] ((stop :: closing t).flatMap Line.chars) = some [] := by
  have hdeclaration : unclosed [] (declarationLine t).text.toList = some [.square] := unclosed_arrayLine rfl rfl _
  have hforms := (adds_items hopcodes).unclosed_eq [.square]
  rw [unclosed_cons_line (unclosed_stop []), closing, List.append_assoc, List.cons_append, List.cons_append,
    List.nil_append, unclosed_cons_line (unclosed_blank []), unclosed_cons_line hdeclaration,
    unclosed_append_lines hforms]
  exact unclosed_cons_line (unclosed_stop []) []

theorem unclosed_bareLines (hnames : ∀ name ∈ t.names, IsName name) (hopcodes : ∀ o ∈ t.opcodes, o.Spelled) :
    unclosed [] (render (bareLines t)).toList = some [] :=
  unclosed_sourceLines hnames (unclosed_opening t) (unclosed_middle t) (unclosed_closing hopcodes)

/-- An array of entries. -/
theorem declares_entries {xs : List Cell} (h : ∀ x ∈ xs, x.Valid) (before after : List Line) (declaration : Line) :
    Declares (render (before ++ declaration :: xs.map (Cell.bareLine .round) ++ stop :: after)).toList
      declaration.text.toList .square (xs.map Cell.item) :=
  declares_of_lines square_closes (Cell.adds_bareLines h) before after (show _ = ']' :: [';', '\n'] by decide)

theorem declares_registers (hnames : ∀ name ∈ t.names, IsName name) :
    Declares (render (bareLines t)).toList (arrayLine "ASM_REGISTERS" "(&str, u8)" t.registers.length).text.toList
      .square (t.registerCells.map Cell.item) := by
  have hlines : bareLines t =
      preamble ++ arrayLine "ASM_REGISTERS" "(&str, u8)" t.registers.length ::
        t.registerCells.map (Cell.bareLine .round) ++
      stop :: (middle t ++ (t.indexCells.map (Cell.bareLine .round) ++ stop :: closing t)) := by
    simp only [bareLines, sourceLines, opening, List.append_assoc, List.cons_append, List.nil_append]
  rw [hlines]
  exact declares_entries (Tables.valid_registerCells hnames) _ _ _

theorem declares_index (hnames : ∀ name ∈ t.names, IsName name) :
    Declares (render (bareLines t)).toList (arrayLine "INSTR_NAMES" "(&str, u8)" t.instructions.length).text.toList
      .square (t.indexCells.map Cell.item) := by
  have hlines : bareLines t =
      (opening t ++ t.registerCells.map (Cell.bareLine .round) ++ [stop, ⟨0, ""⟩]) ++
      arrayLine "INSTR_NAMES" "(&str, u8)" t.instructions.length :: t.indexCells.map (Cell.bareLine .round) ++
      stop :: closing t := by
    simp only [bareLines, sourceLines, middle, List.append_assoc, List.cons_append, List.nil_append]
  rw [hlines]
  exact declares_entries (Tables.valid_indexCells hnames) _ _ _

theorem declares_bareLines (hopcodes : ∀ o ∈ t.opcodes, o.Spelled) :
    Declares (render (bareLines t)).toList (declarationLine t).text.toList .square (dialect.items t) := by
  have hlines : bareLines t =
      (opening t ++ t.registerCells.map (Cell.bareLine .round) ++ stop :: middle t ++
        t.indexCells.map (Cell.bareLine .round) ++ [stop, ⟨0, ""⟩]) ++
      declarationLine t :: t.instructions.flatMap instructionLines ++ ⟨0, "];"⟩ :: [] := by
    simp only [bareLines, sourceLines, closing, List.append_assoc, List.cons_append, List.nil_append]
  rw [hlines]
  exact declares_of_lines square_closes (adds_items hopcodes) _ _ (show _ = ']' :: [';', '\n'] by decide)

end RustSource

/-! ### Sources of descriptions -/

theorem Lexical.of_cuts {s u : List Char} {quoted : List String} (h : Cuts s (quoted.map String.toList) u)
    (hu : unclosed [] u = some []) : Lexical s quoted where
  inside := h.insideQuotes_eq
  even := h.even
  balanced := by
    rw [h.outsideQuotes_eq]
    exact balanced_of_unclosed hu

/-- The sources of a description quote the names of the registers and then those of the instructions, after the included
file in the header.  Their quotes come in pairs, the brackets outside are nested, and the arrays have as many items as
their declarations say. -/
theorem lexical_of_load {s : List UInt8} {policy : VariantPolicy} {d : Description} {t : Tables}
    (hload : Description.load s = .ok d) (hbuild : d.build policy = .ok t) :
    (∀ namespaceName, Symbol.isSymbol namespaceName →
      Lexical (CppHeader.text t namespaceName).toList ("asm.hpp" :: d.names) ∧
      DeclaresLength (CppHeader.text t namespaceName).toList "const std::array<std::vector<InstrParamList>, "
        "> INSTR_ASM_DEFS \x7b" .curly d.instructions.length) ∧
    Lexical (RustSource.text t).toList d.names ∧
    DeclaresLength (RustSource.text t).toList "pub static ASM_REGISTERS: [(&str, u8); " "] = [" .square
      d.registers.length ∧
    DeclaresLength (RustSource.text t).toList "pub static INSTR_NAMES: [(&str, u8); " "] = [" .square
      d.instructions.length ∧
    DeclaresLength (RustSource.text t).toList "pub static INSTR_ASM_DEFS: [&[InstrParamList]; " "] = [" .square
      d.instructions.length := by
  have hnames := Description.isName_of_build hload hbuild
  have hopcodes := Description.spelled_of_build hload hbuild
  obtain ⟨hregisters, hindex⟩ := Description.map_name_build hbuild
  have hregisters : t.registers.length = d.registers.length := by simpa using congrArg List.length hregisters
  have hindex : t.index.length = d.instructions.length := by simpa using congrArg List.length hindex
  have hpositions := (Description.aligned_of_build hbuild).length_eq
  have hinstructions : t.instructions.length = d.instructions.length := by omega
  rw [← Description.names_build hbuild, ← hregisters, ← hinstructions]
  refine ⟨fun n hn => ?_, ?_⟩
  · have hcuts := CppHeader.cuts_text hnames hopcodes hn
    refine ⟨.of_cuts hcuts (CppHeader.unclosed_bareLines hnames hopcodes hn), CppHeader.dialect.items t, ?_, ?_⟩
    · rw [hcuts.outsideQuotes_eq]
      exact CppHeader.declares_bareLines hopcodes n
    · exact List.length_map _
  · have hcuts := RustSource.cuts_text hnames hopcodes
    rw [DeclaresLength, DeclaresLength, DeclaresLength, hcuts.outsideQuotes_eq]
    refine ⟨.of_cuts hcuts (RustSource.unclosed_bareLines hnames hopcodes),
      ⟨_, RustSource.declares_registers hnames, ?_⟩, ⟨_, RustSource.declares_index hnames, ?_⟩,
      ⟨_, RustSource.declares_bareLines hopcodes, ?_⟩⟩
    · rw [List.length_map, Tables.registerCells, List.length_map]
    · rw [List.length_map, Tables.indexCells, List.length_map, hpositions]
    · exact List.length_map _

/-- Names with brackets, commas and the beginnings of comments. -/
theorem lexical_of_load_brackets :
    let s := Utf8.encode ("\x7b\"registers\": [\x7b\"name\": \"r\x7b0\", \"bytecode\": 5\x7d], " ++
      "\"instructions\": [\x7b\"name\": \"add,)\", \"paramList\": [" ++
      "\x7b\"opcode\": \"OP\", \"encodeType\": true, \"params\": [\"iT\"], " ++
      "\"typeVariants\": [\x7b\"type\": \"i8\", \"opcode\": 160\x7d]\x7d]\x7d, " ++
      "\x7b\"name\": \"//]/*\", \"paramList\": []\x7d]\x7d")
    ∃ d t, Description.load s = .ok d ∧ d.build .strict = .ok t ∧ Symbol.isSymbol "Asm" ∧
      Lexical (CppHeader.text t "Asm").toList ["asm.hpp", "r\x7b0", "add,)", "//]/*"] ∧
      DeclaresLength (CppHeader.text t "Asm").toList "const std::array<std::vector<InstrParamList>, "
        "> INSTR_ASM_DEFS \x7b" .curly 2 ∧
      Lexical (RustSource.text t).toList ["r\x7b0", "add,)", "//]/*"] ∧
      DeclaresLength (RustSource.text t).toList "pub static ASM_REGISTERS: [(&str, u8); " "] = [" .square 1 ∧
      DeclaresLength (RustSource.text t).toList "pub static INSTR_NAMES: [(&str, u8); " "] = [" .square 2 ∧
      DeclaresLength (RustSource.text t).toList "pub static INSTR_ASM_DEFS: [&[InstrParamList]; " "] = [" .square
        2 := by
  intro s
  let d : Description :=
    ⟨[⟨"r\x7b0", 5⟩],
      [⟨"add,)", [⟨.symbol "OP", true, ["iT"], [⟨"i8", .literal 160 "160"⟩]⟩]⟩, ⟨"//]/*", []⟩]⟩
  let t : Tables :=
    ⟨[⟨"r\x7b0", 5⟩], [⟨"add,)", 0⟩, ⟨"//]/*", 1⟩],
      [[⟨.symbol "OP", ⟨true, true⟩, [.intType], [⟨.i8, .literal 160 "160"⟩]⟩], []]⟩
  have hload : Description.load s = .ok d := toOption_eq_some_iff.1 (by decide +kernel)
  have hbuild : d.build .strict = .ok t := rfl
  have hname : Symbol.isSymbol "Asm" := by decide
  obtain ⟨hheader, hsource⟩ := lexical_of_load hload hbuild
  obtain ⟨hlexical, hlength⟩ := hheader "Asm" hname
  exact ⟨d, t, hload, hbuild, hname, hlexical, hlength, hsource⟩

end OpcodeTables.Emit
