import OpcodeTables.Document.Content
import OpcodeTables.Checks
import OpcodeTables.Proofs.Opcode
import OpcodeTables.Tables.Build

/-!
# Opcodes of descriptions and tables

Every opcode of a description that was loaded is spelled by its source (`Description.spelled_of_load`), and the tables
of a description have its opcodes, in the same order (`Description.opcodes_tables`).  An opcode of tables stands at a
place, which is that of a form or of one of its variants (`Tables.opcodeAt?`).
-/

namespace OpcodeTables

/-! ### Descriptions -/

namespace Description

def Form.opcodes (f : Form) : List Opcode :=
  f.opcode :: f.variants.map (·.opcode)

def opcodes (d : Description) : List Opcode :=
  d.instructions.flatMap fun x => x.forms.flatMap Form.opcodes

end Description

namespace Document

theorem spelled_of_checkOpcode {s : Json.Scalar} {o : Opcode} (h : checkOpcode s = .ok o) : o.Spelled := by
  cases s with
  | natural n =>
    simp only [checkOpcode] at h
    split at h
    · cases h
      exact Opcode.spelled_ofByte _
    · cases h
  | text t =>
    rw [checkOpcode, mapError_eq_ok_iff] at h
    exact (Opcode.parse_eq_ok_iff.1 h).2

private theorem spelled_of_variant_check {p : Place} {v : Variant} {w : Description.Variant} (h : v.check p = .ok w) :
    w.opcode.Spelled := by
  obtain ⟨o, ho, h⟩ := bind_eq_ok_iff.1 h
  cases h
  exact spelled_of_checkOpcode (mapError_eq_ok_iff.1 ho)

private theorem spelled_of_form_check {i j : Nat} {name : String} {f : Form} {g : Description.Form}
    (h : f.check i name j = .ok g) : ∀ o ∈ g.opcodes, o.Spelled := by
  obtain ⟨o, ho, h⟩ := bind_eq_ok_iff.1 h
  obtain ⟨vs, hvs, h⟩ := bind_eq_ok_iff.1 h
  cases h
  intro o' ho'
  rcases List.mem_cons.1 ho' with rfl | hm
  · exact spelled_of_checkOpcode (mapError_eq_ok_iff.1 ho)
  · obtain ⟨w, hw, rfl⟩ := List.mem_map.1 hm
    exact Indexed.forall_of_traverse (P := fun w => w.opcode.Spelled)
      (fun _ _ _ h => spelled_of_variant_check h) hvs w hw

private theorem spelled_of_instruction_check {i : Nat} {x : Instruction} {y : Description.Instruction}
    (h : x.check i = .ok y) : ∀ g ∈ y.forms, ∀ o ∈ g.opcodes, o.Spelled := by
  obtain ⟨name, -, h⟩ := bind_eq_ok_iff.1 h
  obtain ⟨fs, hfs, h⟩ := bind_eq_ok_iff.1 h
  cases h
  exact Indexed.forall_of_traverse (fun _ _ _ h => spelled_of_form_check h) hfs

end Document

namespace Description

/-- Every opcode of a description that was loaded is spelled by its source. -/
theorem spelled_of_load {s : List UInt8} {d : Description} (h : load s = .ok d) : ∀ o ∈ d.opcodes, o.Spelled := by
  rw [load] at h
  split at h
  · cases h
  · -- registers have no opcodes
    obtain ⟨rs, -, h⟩ := bind_eq_ok_iff.1 (mapError_eq_ok_iff.1 h)
    obtain ⟨xs, hxs, h⟩ := bind_eq_ok_iff.1 h
    cases h
    intro o ho
    obtain ⟨y, hy, ho⟩ := List.mem_flatMap.1 ho
    obtain ⟨g, hg, ho⟩ := List.mem_flatMap.1 ho
    exact Indexed.forall_of_traverse (fun _ _ _ h => Document.spelled_of_instruction_check h) hxs y hy g hg o ho

end Description

/-! ### Tables -/

namespace Tables

def Form.opcodes (f : Form) : List Opcode :=
  f.opcode :: f.variants.map (·.opcode)

def opcodes (t : Tables) : List Opcode :=
  t.instructions.flatMap fun fs => fs.flatMap Form.opcodes

theorem opcodes_variantEntries {policy : VariantPolicy} {instruction : String} {j : Nat} {seen : List NumericType}
    {vs : List Description.Variant} {es : List VariantEntry}
    (h : variantEntries policy instruction j seen vs = .ok es) : es.map (·.opcode) = vs.map (·.opcode) := by
  induction vs generalizing seen es with
  | nil =>
    cases h
    rfl
  | cons v vs ih =>
    rw [variantEntries] at h
    split at h
    · cases h
    split at h
    · cases h
    obtain ⟨es', hes, rfl⟩ := map_eq_ok_iff.1 h
    rw [List.map_cons, List.map_cons, ih hes]

theorem opcodes_formOf {policy : VariantPolicy} {instruction : String} {j : Nat} {f : Description.Form} {g : Form}
    (h : formOf policy instruction j f = .ok g) : g.opcodes = f.opcodes := by
  obtain ⟨ks, -, h⟩ := bind_eq_ok_iff.1 h
  obtain ⟨es, hes, h⟩ := bind_eq_ok_iff.1 h
  cases h
  rw [Form.opcodes, Description.Form.opcodes, opcodes_variantEntries hes]

theorem opcodes_instructionForms {policy : VariantPolicy} {seen : List String} {xs : List Description.Instruction}
    {fss : List (List Form)} (h : instructionForms policy seen xs = .ok fss) :
    fss.flatMap (·.flatMap Form.opcodes) = xs.flatMap (·.forms.flatMap Description.Form.opcodes) := by
  induction xs generalizing seen fss with
  | nil =>
    cases h
    rfl
  | cons x xs ih =>
    rw [instructionForms] at h
    split at h
    · cases h
    split at h
    · cases h
    rename_i fs hfs
    obtain ⟨fss', hfss, rfl⟩ := map_eq_ok_iff.1 h
    have hforms : fs.flatMap Form.opcodes = x.forms.flatMap Description.Form.opcodes := by
      rw [List.flatMap_def, List.flatMap_def, Indexed.map_traverse (fun _ _ _ h => opcodes_formOf h) hfs]
    rw [List.flatMap_cons, List.flatMap_cons, hforms, ih hfss]

/-- A place of an opcode: a form of an instruction, or a variant of such a form. -/
inductive OpcodePlace where
  | form (i j : Nat)
  | variant (i j k : Nat)

def opcodeAt? (t : Tables) : OpcodePlace → Option Opcode
  | .form i j => (t.form? i j).map (·.opcode)
  | .variant i j k => (t.form? i j).bind fun f => f.variants[k]?.map (·.opcode)

theorem mem_opcodes {t : Tables} {fs : List Form} {f : Form} {o : Opcode} (hfs : fs ∈ t.instructions) (hf : f ∈ fs)
    (ho : o ∈ f.opcodes) : o ∈ t.opcodes :=
  List.mem_flatMap.2 ⟨fs, hfs, List.mem_flatMap.2 ⟨f, hf, ho⟩⟩

theorem mem_opcodes_of_opcodeAt? {t : Tables} {p : OpcodePlace} {o : Opcode} (h : t.opcodeAt? p = some o) :
    o ∈ t.opcodes := by
  have hform : ∀ {i j f}, t.form? i j = some f → ∀ o ∈ f.opcodes, o ∈ t.opcodes := by
    intro i j f hf o ho
    obtain ⟨fs, hfs, hf⟩ := Option.bind_eq_some_iff.1 hf
    exact mem_opcodes (List.mem_of_getElem? hfs) (List.mem_of_getElem? hf) ho
  cases p with
  | form i j =>
    obtain ⟨f, hf, rfl⟩ := Option.map_eq_some_iff.1 h
    exact hform hf _ List.mem_cons_self
  | variant i j k =>
    obtain ⟨f, hf, h⟩ := Option.bind_eq_some_iff.1 h
    obtain ⟨v, hv, rfl⟩ := Option.map_eq_some_iff.1 h
    exact hform hf _ (List.mem_cons_of_mem _ (List.mem_map_of_mem (List.mem_of_getElem? hv)))

end Tables

/-- The tables of a description have its opcodes. -/
theorem Description.opcodes_tables {policy : VariantPolicy} {d : Description} {t : Tables}
    (h : d.tables policy = .ok t) : t.opcodes = d.opcodes := by
  rw [tables] at h
  split at h
  · cases h
  · obtain ⟨rs, -, h⟩ := bind_eq_ok_iff.1 h
    obtain ⟨fss, hfss, h⟩ := bind_eq_ok_iff.1 h
    cases h
    exact Tables.opcodes_instructionForms hfss

/-- Every opcode of the tables of a description that was loaded is spelled by its source. -/
theorem Description.spelled_of_tables {s : List UInt8} {policy : VariantPolicy} {d : Description} {t : Tables}
    (hload : load s = .ok d) (hbuild : d.tables policy = .ok t) : ∀ o ∈ t.opcodes, o.Spelled := by
  rw [opcodes_tables hbuild]
  exact spelled_of_load hload

end OpcodeTables
