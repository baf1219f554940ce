import OpcodeTables.Proofs.Description
import OpcodeTables.Proofs.Tables.Build

/-!
# Names and opcodes that are let through

The names of a description that was loaded are made of printable ASCII without spaces, quotes and backslashes
(`Description.isName_of_load`), and its tables have the same names in the same order (`Description.names_build`).
Together with the spellings of opcodes this is what the generated sources rely on (`Description.fit_of_load`).
-/

namespace OpcodeTables

/-! ### Names -/

namespace Document

/-- What a name is made of. -/
structure IsName (name : String) : Prop where
  ne_nil : name.toList ≠ []
  char : ∀ c ∈ name.toList, 0x21 ≤ c.toNat ∧ c.toNat ≤ 0x7E ∧ c ≠ '"' ∧ c ≠ '\\'

theorem isNameChar_iff {c : Char} : isNameChar c ↔ 0x21 ≤ c.toNat ∧ c.toNat ≤ 0x7E ∧ c ≠ '"' ∧ c ≠ '\\' := by
  simp only [isNameChar, Bool.and_eq_true, decide_eq_true_eq, and_assoc]

theorem checkName_eq_ok_iff {name s : String} : checkName name = .ok s ↔ s = name ∧ IsName name := by
  rw [checkName]
  split
  · rename_i hnil
    constructor
    · intro h
      cases h
    · rintro ⟨-, h⟩
      exact absurd hnil h.ne_nil
  · rename_i hne
    split
    · rename_i c hc
      constructor
      · intro h
        cases h
      · rintro ⟨-, h⟩
        have hbad := List.find?_some hc
        rw [isNameChar_iff.2 (h.char c (List.mem_of_find?_eq_some hc))] at hbad
        cases hbad
    · rename_i hnone
      have hchar : ∀ c ∈ name.toList, isNameChar c := by
        intro c hc
        simpa using List.find?_eq_none.1 hnone c hc
      constructor
      · intro h
        cases h
        exact ⟨rfl, hne, fun c hc => isNameChar_iff.1 (hchar c hc)⟩
      · rintro ⟨rfl, -⟩
        rfl

private theorem isName_of_register_check {i : Nat} {r : Register} {r' : Description.Register}
    (h : r.check i = .ok r') : IsName r'.name := by
  obtain ⟨name, hname, h⟩ := bind_eq_ok_iff.1 h
  obtain ⟨code, -, h⟩ := bind_eq_ok_iff.1 h
  cases h
  obtain ⟨rfl, hvalid⟩ := checkName_eq_ok_iff.1 (mapError_eq_ok_iff.1 hname)
  exact hvalid

private theorem isName_of_instruction_check {i : Nat} {x : Instruction} {y : Description.Instruction}
    (h : x.check i = .ok y) : IsName y.name := by
  obtain ⟨name, hname, h⟩ := bind_eq_ok_iff.1 h
  obtain ⟨forms, -, h⟩ := bind_eq_ok_iff.1 h
  cases h
  obtain ⟨rfl, hvalid⟩ := checkName_eq_ok_iff.1 (mapError_eq_ok_iff.1 hname)
  exact hvalid

end Document

namespace Description

/-- The names of the registers and those of the instructions. -/
def names (d : Description) : List String :=
  d.registers.map (·.name) ++ d.instructions.map (·.name)

theorem isName_of_load {s : List UInt8} {d : Description} (h : load s = .ok d) :
    ∀ name ∈ d.names, Document.IsName name := by
  rw [load] at h
  split at h
  · cases h
  · obtain ⟨rs, hrs, h⟩ := bind_eq_ok_iff.1 (mapError_eq_ok_iff.1 h)
    obtain ⟨xs, hxs, h⟩ := bind_eq_ok_iff.1 h
    cases h
    intro name hname
    rcases List.mem_append.1 hname with hname | hname
    · obtain ⟨r, hr, rfl⟩ := List.mem_map.1 hname
      exact Indexed.forall_of_traverse (P := fun r => Document.IsName r.name)
        (fun _ _ _ h => Document.isName_of_register_check h) hrs r hr
    · obtain ⟨x, hx, rfl⟩ := List.mem_map.1 hname
      exact Indexed.forall_of_traverse (P := fun x => Document.IsName x.name)
        (fun _ _ _ h => Document.isName_of_instruction_check h) hxs x hx

end Description

namespace Tables

/-- The names of the registers and those of the instructions. -/
def names (t : Tables) : List String :=
  t.registers.map (·.name) ++ t.index.map (·.name)

theorem map_name_registers (t : Tables) : t.description.registers.map (·.name) = t.registers.map (·.name) := by
  rw [description, List.map_map]
  rfl

theorem Aligned.map_name_instructions {t : Tables} (h : t.Aligned) :
    t.description.instructions.map (·.name) = t.index.map (·.name) :=
  ((instructions_eq_iff h.length_eq).1 rfl).1.symm

end Tables

namespace Description

variable {s : List UInt8} {policy : VariantPolicy} {d : Description} {t : Tables}

theorem aligned_of_build (hbuild : d.build policy = .ok t) : t.Aligned :=
  (build_eq_ok_iff.1 hbuild).2.aligned

theorem map_name_build (hbuild : d.build policy = .ok t) :
    t.registers.map (·.name) = d.registers.map (·.name) ∧ t.index.map (·.name) = d.instructions.map (·.name) := by
  have haligned := aligned_of_build hbuild
  obtain ⟨rfl, -⟩ := build_eq_ok_iff.1 hbuild
  exact ⟨t.map_name_registers.symm, haligned.map_name_instructions.symm⟩

/-- The tables of a description have its names. -/
theorem names_build (hbuild : d.build policy = .ok t) : t.names = d.names := by
  obtain ⟨hregisters, hinstructions⟩ := map_name_build hbuild
  rw [Tables.names, hregisters, hinstructions, names]

theorem isName_of_build (hload : load s = .ok d) (hbuild : d.build policy = .ok t) :
    ∀ name ∈ t.names, Document.IsName name := by
  rw [names_build hbuild]
  exact isName_of_load hload

theorem spelled_of_build (hload : load s = .ok d) (hbuild : d.build policy = .ok t) : ∀ o ∈ t.opcodes, o.Spelled :=
  spelled_of_tables hload (Tables.verified_eq_ok_iff.1 hbuild).1

end Description

/-! ### Opcodes -/

namespace Opcode

/-- The characters with a meaning of their own in generated sources. -/
def reserved : List Char :=
  ['"', '\'', ',', '(', ')', '[', ']', '\x7b', '\x7d', '<', '>']

/-- The opcode is parsed from its own source, which can stand in generated sources as it is. -/
structure Fit (o : Opcode) : Prop where
  parse_source : parse o.source = .ok o
  literal : ∀ value text, o = .literal value text → Integer.read? text.toList = some value.toNat ∧ value.toNat ≤ 255
  symbol : ∀ name, o = .symbol name → Symbol.isSymbol name ∧ Integer.read? name.toList = none
  char : ∀ c ∈ o.source.toList, Text.isBlank c = false ∧ c ∉ reserved

theorem Spelled.fit {o : Opcode} (h : o.Spelled) : o.Fit where
  parse_source := h.parse_source
  literal := by
    rintro value text rfl
    have := value.toNat_lt
    exact ⟨h, by omega⟩
  symbol := by
    rintro name rfl
    exact ⟨h.2, h.1⟩
  char := by
    intro c hc
    have hreserved : reserved.all (fun d => ¬ (Symbol.isTail d ∨ d = ':')) := by decide
    refine ⟨?_, fun hr => of_decide_eq_true (List.all_eq_true.1 hreserved c hr) (h.mem_source hc)⟩
    rcases h.mem_source hc with ht | rfl
    · have := Symbol.toNat_bounds_of_isTail ht
      exact Text.isBlank_eq_false (by omega) (by omega)
    · rfl

end Opcode

/-- All that is loaded is fit for generated sources: the names of a description are printable ASCII without spaces,
quotes and backslashes, and its opcodes are parsed from their own sources, which are numbers or symbols without blanks,
quotes, commas and brackets.  The tables that are built of it keep both. -/
theorem Description.fit_of_load {s : List UInt8} {d : Description} (hload : load s = .ok d) :
    (∀ name ∈ d.names, Document.IsName name) ∧ (∀ o ∈ d.opcodes, o.Fit) ∧
    ∀ (policy : VariantPolicy) (t : Tables), d.build policy = .ok t →
      (∀ name ∈ t.names, Document.IsName name) ∧ ∀ o ∈ t.opcodes, o.Fit := by
  refine ⟨isName_of_load hload, fun o ho => (spelled_of_load hload o ho).fit, fun policy t hbuild => ?_⟩
  exact ⟨isName_of_build hload hbuild, fun o ho => (spelled_of_build hload hbuild o ho).fit⟩

/-- Names with brackets and commas, an opcode given as a number, and a symbol with blanks around it. -/
theorem Description.fit_of_load_blanks :
    let s := Utf8.encode ("\x7b\"registers\": [\x7b\"name\": \"r\x7b0\", \"bytecode\": 5\x7d], " ++
      "\"instructions\": [\x7b\"name\": \"add,)\", \"paramList\": [" ++
      "\x7b\"opcode\": 160, \"encodeType\": true, \"params\": [\"iT\"], " ++
      "\"typeVariants\": [\x7b\"type\": \"i8\", \"opcode\": \"\u3000OP::ADD\\t\"\x7d]\x7d]\x7d]\x7d")
    ∃ d t, load s = .ok d ∧ d.build .strict = .ok t ∧
      d.names = ["r\x7b0", "add,)"] ∧ d.opcodes = [.literal 160 "160", .symbol "OP::ADD"] ∧
      (∀ name ∈ d.names, Document.IsName name) ∧ (∀ o ∈ d.opcodes, o.Fit) ∧
      (∀ name ∈ t.names, Document.IsName name) ∧ ∀ o ∈ t.opcodes, o.Fit := by
  intro s
  let d : Description :=
    ⟨[⟨"r\x7b0", 5⟩], [⟨"add,)", [⟨.literal 160 "160", true, ["iT"], [⟨"i8", .symbol "OP::ADD"⟩]⟩]⟩]⟩
  let t : Tables :=
    ⟨[⟨"r\x7b0", 5⟩], [⟨"add,)", 0⟩],
      [[⟨.literal 160 "160", ⟨true, true⟩, [.intType], [⟨.i8, .symbol "OP::ADD"⟩]⟩]]⟩
  have hload : load s = .ok d := toOption_eq_some_iff.1 (by decide +kernel)
  have hbuild : d.build .strict = .ok t := rfl
  obtain ⟨hnames, hopcodes, htables⟩ := fit_of_load hload
  exact ⟨d, t, hload, hbuild, rfl, rfl, hnames, hopcodes, htables .strict t hbuild⟩

end OpcodeTables
