import OpcodeTables.Proofs.Signature
import OpcodeTables.Proofs.Tables.Build

/-!
# Lookups in the tables of a description

In tables that were built, a name is found where the description has it: the code of a register
(`Tables.WellFormed.registerCode?_eq_some_iff`), the position of an instruction
(`Tables.WellFormed.indexOf?_eq_some_iff`), and the last form of this instruction whose tags name the operands
(`Tables.WellFormed.resolveByName_eq_some_iff`).  The opcode that such a form chooses for a type is the one that the
description declares for it (`Tables.Form.chosenOpcode_eq`).
-/

namespace OpcodeTables

/-- Where keys do not repeat, the element found by its key is the one with this key. -/
theorem find?_key_eq_some_iff {α κ : Type} [DecidableEq κ] {key : α → κ} {as : List α} (h : (as.map key).Nodup)
    {k : κ} {a : α} : as.find? (key · = k) = some a ↔ a ∈ as ∧ key a = k := by
  constructor
  · intro ha
    exact ⟨List.mem_of_find?_eq_some ha, by simpa using List.find?_some ha⟩
  · rintro ⟨ha, rfl⟩
    induction as with
    | nil => cases ha
    | cons b as ih =>
      rw [List.map_cons, List.nodup_cons] at h
      rcases List.mem_cons.1 ha with rfl | ha
      · simp
      · have hne : key b ≠ key a := fun hb => h.1 (hb ▸ List.mem_map_of_mem ha)
        rw [List.find?_cons, decide_eq_false hne]
        exact ih h.2 ha

namespace Description

/-- The tags of the operands name the kinds. -/
def Form.Reads (f : Form) (ks : List OperandKind) : Prop :=
  f.params.map OperandKind.ofTag = ks.map .ok

/-- The opcode that is declared for operands of a type: that of the last variant whose tag names the type, and that of
the form where no variant does. -/
def Form.declaredOpcode (f : Form) (type : NumericType) : Opcode :=
  match f.variants.reverse.find? (NumericType.ofTag ·.type = .ok type) with
  | some v => v.opcode
  | none => f.opcode

end Description

namespace Tables

variable {policy : VariantPolicy} {t : Tables}

/-! ### Names -/

theorem getElem?_instructions_description (t : Tables) (i : Nat) (x : Description.Instruction) :
    t.description.instructions[i]? = some x ↔
      ∃ e fs, t.index[i]? = some e ∧ t.instructions[i]? = some fs ∧ x = ⟨e.name, fs.map (·.description)⟩ := by
  rw [description, List.getElem?_zipWith_eq_some]
  simp only [eq_comm (a := x)]

theorem WellFormed.registerCode?_eq_some_iff (h : t.WellFormed policy) {name : String} {code : UInt8} :
    t.registerCode? name = some code ↔ ⟨name, code⟩ ∈ t.description.registers := by
  rw [registerCode?, Option.map_eq_some_iff, description, List.mem_map]
  constructor
  · rintro ⟨r, hr, rfl⟩
    obtain ⟨hmem, rfl⟩ := (find?_key_eq_some_iff h.registers).1 hr
    exact ⟨r, hmem, rfl⟩
  · rintro ⟨r, hmem, hr⟩
    cases hr
    exact ⟨r, (find?_key_eq_some_iff h.registers).2 ⟨hmem, rfl⟩, rfl⟩

theorem WellFormed.indexOf?_eq_some_iff (h : t.WellFormed policy) {name : String} {i : Nat} :
    t.indexOf? name = some i ↔ ∃ x, t.description.instructions[i]? = some x ∧ x.name = name := by
  rw [indexOf?, Option.map_eq_some_iff]
  constructor
  · rintro ⟨e, he, rfl⟩
    obtain ⟨hmem, hname⟩ := (find?_key_eq_some_iff h.instructions).1 he
    obtain ⟨k, hk⟩ := List.mem_iff_getElem?.1 hmem
    -- the entry has its position, where there are forms too
    obtain rfl := h.aligned.index_eq k e hk
    have hlt : e.index.toNat < t.instructions.length := by
      rw [← h.aligned.length_eq]
      exact (List.getElem?_eq_some_iff.1 hk).1
    refine ⟨_, (getElem?_instructions_description _ _ _).2 ⟨e, _, hk, List.getElem?_eq_getElem hlt, rfl⟩, hname⟩
  · rintro ⟨x, hx, rfl⟩
    obtain ⟨e, fs, he, -, rfl⟩ := (getElem?_instructions_description _ _ _).1 hx
    refine ⟨e, (find?_key_eq_some_iff h.instructions).2 ⟨List.mem_of_getElem? he, rfl⟩, ?_⟩
    exact h.aligned.index_eq i e he

/-! ### Forms -/

theorem Form.reads_description_iff {f : Form} {ks : List OperandKind} : f.description.Reads ks ↔ f.accepts ks := by
  have hparams : f.description.params.map OperandKind.ofTag = f.params.map Except.ok := by
    rw [description, List.map_map]
    exact List.map_congr_left fun k _ => OperandKind.ofTag_eq_ok_iff.2 rfl
  have hok : Function.Injective (Except.ok : OperandKind → Except UnknownTag OperandKind) := by
    intro k k' hk
    cases hk
    rfl
  rw [Description.Form.Reads, hparams, accepts, decide_eq_true_iff, List.map_inj_right hok]

/-- A form chooses the opcode that its description declares. -/
theorem Form.chosenOpcode_eq {f : Form} (h : f.isConsistent) (type : NumericType) :
    f.chosenOpcode type = f.description.declaredOpcode type := by
  have hsearch : f.description.variants.reverse.find? (NumericType.ofTag ·.type = .ok type) =
      (f.variants.reverse.find? (·.type = type)).map (·.description) := by
    have htag : ∀ v : VariantEntry, NumericType.ofTag v.description.type = .ok type ↔ v.type = type := by
      intro v
      rw [NumericType.ofTag_eq_ok_iff, VariantEntry.description]
      exact NumericType.tag_injective.eq_iff
    rw [description, ← List.map_reverse, List.find?_map]
    simp only [Function.comp_def, htag]
  have hflag : (if f.flags.typeVariants then f.variants.reverse.find? (·.type = type) else none) =
      f.variants.reverse.find? (·.type = type) := by
    rw [Form.isConsistent_iff.1 h]
    cases f.variants <;> simp
  rw [chosenOpcode, hflag, Description.Form.declaredOpcode, hsearch]
  cases f.variants.reverse.find? (·.type = type) with
  | none => rfl
  | some v => rfl

/-- Operands of an instruction resolve to the form that stands for the last one whose tags name them. -/
theorem WellFormed.resolveByName_eq_some_iff (h : t.WellFormed policy) {name : String} {ks : List OperandKind}
    {r : Form} :
    (SignatureTrees.ofTables t).resolveByName name ks = some r ↔
      ∃ i x before f after, t.description.instructions[i]? = some x ∧ x.name = name ∧
        x.forms = before ++ f :: after ∧ f.Reads ks ∧ (∀ g ∈ after, ¬ g.Reads ks) ∧
        t.form? i before.length = some r := by
  have hname : (SignatureTrees.ofTables t).resolveByName name ks =
      (t.indexOf? name).bind fun i => (SignatureTrees.ofTables t).resolve i ks := rfl
  rw [hname, Option.bind_eq_some_iff]
  simp only [h.indexOf?_eq_some_iff, SignatureTrees.resolve_eq, Option.bind_eq_some_iff, find?_reverse_eq_some_iff]
  constructor
  · rintro ⟨i, ⟨x, hx, hxname⟩, fs, hfs, before, after, rfl, hr, hafter⟩
    obtain ⟨e, fs', -, hfs', rfl⟩ := (getElem?_instructions_description _ _ _).1 hx
    obtain rfl : fs' = before ++ r :: after := Option.some.inj (hfs'.symm.trans hfs)
    refine ⟨i, _, before.map (·.description), r.description, after.map (·.description), hx, hxname, by simp,
      Form.reads_description_iff.2 hr, ?_, by simp [form?, hfs]⟩
    intro g hg
    obtain ⟨f, hf, rfl⟩ := List.mem_map.1 hg
    rw [Form.reads_description_iff]
    exact hafter f hf
  · rintro ⟨i, x, before, f, after, hx, hxname, hforms, hf, hafter, hr⟩
    obtain ⟨e, fs, -, hfs, rfl⟩ := (getElem?_instructions_description _ _ _).1 hx
    obtain ⟨before, rest, rfl, rfl, hrest⟩ := List.map_eq_append_iff.1 hforms
    obtain ⟨f, after, rfl, rfl, rfl⟩ := List.map_eq_cons_iff.1 hrest
    have hform : t.form? i (before.map (·.description)).length = some f := by
      rw [form?, forms?, hfs]
      simp
    obtain rfl : f = r := Option.some.inj (hform.symm.trans hr)
    refine ⟨i, ⟨_, hx, hxname⟩, _, hfs, before, after, rfl, Form.reads_description_iff.1 hf, fun g hg => ?_⟩
    rw [← Form.reads_description_iff]
    exact hafter _ (List.mem_map_of_mem hg)

/-- Operands of an instruction resolve to some form just if the tags of one of its forms name them. -/
theorem WellFormed.exists_resolveByName_iff (h : t.WellFormed policy) {name : String} {ks : List OperandKind} :
    (∃ r, (SignatureTrees.ofTables t).resolveByName name ks = some r) ↔
      ∃ x ∈ t.description.instructions, x.name = name ∧ ∃ f ∈ x.forms, f.Reads ks := by
  constructor
  · rintro ⟨r, hr⟩
    obtain ⟨i, x, before, f, after, hx, hname, hforms, hf, -, -⟩ := h.resolveByName_eq_some_iff.1 hr
    exact ⟨x, List.mem_of_getElem? hx, hname, f, by simp [hforms], hf⟩
  · rintro ⟨x, hmem, hname, f, hf, hreads⟩
    obtain ⟨i, hx⟩ := List.mem_iff_getElem?.1 hmem
    obtain ⟨e, fs, -, hfs, rfl⟩ := (getElem?_instructions_description _ _ _).1 hx
    obtain ⟨g, hg, rfl⟩ := List.mem_map.1 hf
    have hparams : g.params = ks := of_decide_eq_true (Form.reads_description_iff.1 hreads)
    have hforms : (t.forms? i).getD [] = fs := by
      rw [forms?, hfs]
      rfl
    obtain ⟨r, hresolve⟩ := (SignatureTrees.exists_resolve_iff t i ks).2 ⟨g, hforms ▸ hg, hparams⟩
    exact ⟨r, Option.bind_eq_some_iff.2 ⟨i, h.indexOf?_eq_some_iff.2 ⟨_, hx, hname⟩, hresolve⟩⟩

/-- The form at a place reads back as the form that the description has there. -/
theorem getElem?_forms_description {i j : Nat} {x : Description.Instruction} {r : Form}
    (hx : t.description.instructions[i]? = some x) (hr : t.form? i j = some r) : x.forms[j]? = some r.description := by
  obtain ⟨e, fs, -, hfs, rfl⟩ := (getElem?_instructions_description _ _ _).1 hx
  rw [form?, forms?, hfs, Option.bind_some] at hr
  rw [List.getElem?_map, hr]
  rfl

theorem Aligned.isConsistent (h : t.Aligned) {i j : Nat} {r : Form} (hr : t.form? i j = some r) : r.isConsistent := by
  obtain ⟨fs, hfs, hr⟩ := Option.bind_eq_some_iff.1 hr
  exact h.consistent fs (List.mem_of_getElem? hfs) r (List.mem_of_getElem? hr)

end Tables

/-- What is looked up in the tables of a description is what the description declares: operands of an instruction
resolve just if one of its forms has them, and then to the last such form, with the opcode, the flags and the opcodes
for types that are declared; registers have their codes, and instructions their positions. -/
theorem Description.lookup_build {policy : VariantPolicy} {d : Description} {t : Tables}
    (hbuild : d.build policy = .ok t) :
    (∀ name ks, (∃ r, (SignatureTrees.ofTables t).resolveByName name ks = some r) ↔
      ∃ x ∈ d.instructions, x.name = name ∧ ∃ f ∈ x.forms, f.Reads ks) ∧
    (∀ name ks r, (SignatureTrees.ofTables t).resolveByName name ks = some r →
      ∃ i x before f after, d.instructions[i]? = some x ∧ x.name = name ∧
        (∀ (k : Nat) (y : Instruction), d.instructions[k]? = some y → y.name = name → k = i) ∧
        x.forms = before ++ f :: after ∧ f.Reads ks ∧ (∀ g ∈ after, ¬ g.Reads ks) ∧
        t.form? i before.length = some r ∧ r.opcode = f.opcode ∧ r.flags = ⟨f.encodeType, !f.variants.isEmpty⟩ ∧
        ∀ type, r.opcodeFor type = (f.declaredOpcode type).value? ∧
          (r.opcodeFor type = none ↔ (f.declaredOpcode type).isSymbol)) ∧
    (∀ name code, t.registerCode? name = some code ↔ ⟨name, code⟩ ∈ d.registers) ∧
    ∀ name i, t.indexOf? name = some i ↔ ∃ x, d.instructions[i]? = some x ∧ x.name = name := by
  obtain ⟨rfl, h⟩ := build_eq_ok_iff.1 hbuild
  refine ⟨fun name ks => h.exists_resolveByName_iff, ?_, fun name code => h.registerCode?_eq_some_iff,
    fun name i => h.indexOf?_eq_some_iff⟩
  intro name ks r hresolve
  obtain ⟨i, x, before, f, after, hx, hname, hforms, hreads, hafter, hr⟩ := h.resolveByName_eq_some_iff.1 hresolve
  have hconsistent := h.aligned.isConsistent hr
  have hf : r.description = f := by
    have hread := Tables.getElem?_forms_description hx hr
    rw [hforms] at hread
    simpa using hread.symm
  subst hf
  refine ⟨i, x, before, _, after, hx, hname, ?_, hforms, hreads, hafter, hr, rfl, ?_, fun type => ?_⟩
  · intro k y hy hyname
    have hi := h.indexOf?_eq_some_iff.2 ⟨x, hx, hname⟩
    have hk := h.indexOf?_eq_some_iff.2 ⟨y, hy, hyname⟩
    exact Option.some.inj (hk.symm.trans hi)
  · rw [Tables.Form.description, List.isEmpty_map, ← Tables.Form.isConsistent_iff.1 hconsistent]
  · rw [Tables.Form.opcodeFor, Tables.Form.chosenOpcode_eq hconsistent]
    refine ⟨rfl, ?_⟩
    cases r.description.declaredOpcode type with
    | literal value text => simp [Opcode.value?, Opcode.isSymbol]
    | symbol name => simp [Opcode.value?, Opcode.isSymbol]

/-- Two forms have the same operands, and a symbol comes after a byte for one type of the last form. -/
theorem Description.lookup_build_two_forms :
    let d : Description :=
      { registers := [⟨"r0", 5⟩],
        instructions := [⟨"nop", []⟩, ⟨"push", [⟨.literal 1 "1", false, ["iT", "int"], []⟩,
          ⟨.literal 9 "0x09", true, ["iT", "int"], [⟨"i8", .literal 2 "2"⟩, ⟨"i8", .symbol "OP_PUSH"⟩]⟩]⟩] }
    let r : Tables.Form :=
      ⟨.literal 9 "0x09", ⟨true, true⟩, [.intType, .intNum], [⟨.i8, .literal 2 "2"⟩, ⟨.i8, .symbol "OP_PUSH"⟩]⟩
    ∃ t, d.build .lastWins = .ok t ∧
      (SignatureTrees.ofTables t).resolveByName "push" [.intType, .intNum] = some r ∧
      (∃ f : Form, f.Reads [.intType, .intNum] ∧ r.opcode = f.opcode ∧ r.flags = ⟨f.encodeType, !f.variants.isEmpty⟩ ∧
        r.opcodeFor .i8 = (f.declaredOpcode .i8).value?) ∧
      r.opcodeFor .i8 = none ∧ r.opcodeFor .i16 = some 9 ∧
      t.registerCode? "r0" = some 5 ∧ t.indexOf? "push" = some 1 := by
  intro d r
  let t : Tables :=
    { registers := [⟨"r0", 5⟩], index := [⟨"nop", 0⟩, ⟨"push", 1⟩],
      instructions := [[], [⟨.literal 1 "1", ⟨false, false⟩, [.intType, .intNum], []⟩, r]] }
  have hbuild : d.build .lastWins = .ok t := rfl
  have hresolve : (SignatureTrees.ofTables t).resolveByName "push" [.intType, .intNum] = some r := rfl
  obtain ⟨-, hform, hregister, hindex⟩ := lookup_build hbuild
  obtain ⟨-, -, -, f, -, -, -, -, -, hreads, -, -, hopcode, hflags, htype⟩ := hform _ _ _ hresolve
  exact ⟨t, hbuild, hresolve, ⟨f, hreads, hopcode, hflags, (htype .i8).1⟩, rfl, rfl,
    (hregister "r0" 5).2 List.mem_cons_self, (hindex "push" 1).2 ⟨_, rfl, rfl⟩⟩

end OpcodeTables
