import OpcodeTables.Proofs.Names
import OpcodeTables.Proofs.Opcode.Classes

/-!
# The first bad field

The fields of a document whose content is checked stand in one order, whatever the text was that the document was read
from (`Document.fields`), and their content is good or not by itself (`Document.Content.Good`).  A document is no
description exactly if a field is bad, and the complaint is about the first such field
(`Description.load_eq_first_bad_field`).
-/

namespace OpcodeTables

open Json (Scalar)

namespace Document

/-! ### Fields -/

/-- What a field holds. -/
inductive Content where
  | name (s : String)
  | code (s : Scalar)
  | opcode (s : Scalar)

/-- A field whose content is checked, with what complaints call it. -/
structure Field where
  place : Place
  context : String
  content : Content
  context_eq : context = place.text

def Register.fields (i : Nat) (r : Register) : List Field :=
  [⟨.registerName i, s!"registers[{i}].name", .name r.name, rfl⟩,
   ⟨.registerCode i r.name, s!"registers[{i}] ({r.name}).bytecode", .code r.bytecode, rfl⟩]

private theorem append_bracket (s u : String) : s ++ "]" ++ u = s ++ ("]" ++ u) :=
  String.append_assoc

theorem context_form (i : Nat) (name : String) (j : Nat) :
    s!"instructions[{i}] ({name}).paramList[{j}].opcode" = (Place.opcode i name j).text := by
  have hsplit : "].opcode" = "]" ++ ".opcode" := by simp
  have htext : (Place.opcode i name j).text =
      "instructions[" ++ toString i ++ "] (" ++ name ++ ").paramList[" ++ toString j ++ "]" ++ ".opcode" := rfl
  rw [htext, append_bracket, ← hsplit]
  rfl

theorem context_variant (i : Nat) (name : String) (j k : Nat) :
    s!"instructions[{i}] ({name}).paramList[{j}].typeVariants[{k}].opcode" =
      (Place.variantOpcode i name j k).text := by
  have hsplit : "].typeVariants[" = "]" ++ ".typeVariants[" := by simp
  have htext : (Place.variantOpcode i name j k).text =
      "instructions[" ++ toString i ++ "] (" ++ name ++ ").paramList[" ++ toString j ++ "]" ++ ".typeVariants[" ++
        toString k ++ "].opcode" := rfl
  rw [htext, append_bracket, ← hsplit]
  rfl

def Variant.fields (i : Nat) (name : String) (j k : Nat) (v : Variant) : List Field :=
  [⟨.variantOpcode i name j k, s!"instructions[{i}] ({name}).paramList[{j}].typeVariants[{k}].opcode",
    .opcode v.opcode, context_variant i name j k⟩]

def Form.fields (i : Nat) (name : String) (j : Nat) (f : Form) : List Field :=
  ⟨.opcode i name j, s!"instructions[{i}] ({name}).paramList[{j}].opcode", .opcode f.opcode, context_form i name j⟩ ::
    f.typeVariants.zipIdx.flatMap fun (v, k) => v.fields i name j k

def Instruction.fields (i : Nat) (x : Instruction) : List Field :=
  ⟨.instructionName i, s!"instructions[{i}].name", .name x.name, rfl⟩ ::
    x.paramList.zipIdx.flatMap fun (f, j) => f.fields i x.name j

/-- The fields in the order in which they count. -/
def fields (d : Document) : List Field :=
  (d.registers.zipIdx.flatMap fun (r, i) => r.fields i) ++ d.instructions.zipIdx.flatMap fun (x, i) => x.fields i

/-! ### Content -/

/-- A number of one byte, or a text that spells one, blanks around it aside. -/
def IsByte : Scalar → Prop
  | .natural n => n ≤ 255
  | .text t => ∃ n ≤ 255, Integer.read? (Text.trim t.toList) = some n

/-- A text that spells a symbol, blanks around it aside. -/
def IsSymbolic : Scalar → Prop
  | .natural _ => False
  | .text t => Symbol.IsQualified (Text.trim t.toList)

/-- The content passes its check. -/
def Content.Good : Content → Prop
  | .name s => IsName s
  | .code s => IsByte s
  | .opcode s => IsByte s ∨ IsSymbolic s

theorem exists_checkCode_iff {s : Scalar} : (∃ v, checkCode s = .ok v) ↔ IsByte s := by
  have hbyte : ∀ n, (∃ v, checkCode.ofNat n = .ok v) ↔ n ≤ 255 := by
    intro n
    rw [checkCode.ofNat]
    split
    · exact iff_of_true ⟨_, rfl⟩ (by omega)
    · exact iff_of_false (by rintro ⟨v, ⟨⟩⟩) (by omega)
  cases s with
  | natural n => exact hbyte n
  | text t =>
    rw [checkCode, IsByte]
    cases hr : Integer.read? (Text.trim t.toList) with
    | none => simp
    | some n => simpa using hbyte n

theorem exists_checkOpcode_iff {s : Scalar} : (∃ o, checkOpcode s = .ok o) ↔ IsByte s ∨ IsSymbolic s := by
  cases s with
  | natural n =>
    rw [checkOpcode, IsByte, IsSymbolic, or_false]
    split
    · exact iff_of_true ⟨_, rfl⟩ (by omega)
    · exact iff_of_false (by rintro ⟨v, ⟨⟩⟩) (by omega)
  | text t =>
    rw [checkOpcode, IsByte, IsSymbolic]
    simp only [mapError_eq_ok_iff, Opcode.exists_parse_eq_ok_iff]

/-- The problem of a check, unless it succeeds. -/
def problem? {α : Type} : Except Problem α → Option Problem
  | .error problem => some problem
  | .ok _ => none

def Content.problem? : Content → Option Problem
  | .name s => Document.problem? (checkName s)
  | .code s => Document.problem? (checkCode s)
  | .opcode s => Document.problem? (checkOpcode s)

theorem problem?_eq_none_iff {α : Type} {x : Except Problem α} : problem? x = none ↔ ∃ a, x = .ok a := by
  cases x <;> simp [problem?]

theorem Content.problem?_eq_none_iff {c : Content} : c.problem? = none ↔ c.Good := by
  cases c with
  | name s =>
    rw [Content.problem?, Document.problem?_eq_none_iff, Content.Good]
    simp [checkName_eq_ok_iff]
  | code s => rw [Content.problem?, Document.problem?_eq_none_iff, exists_checkCode_iff, Content.Good]
  | opcode s => rw [Content.problem?, Document.problem?_eq_none_iff, exists_checkOpcode_iff, Content.Good]

instance (c : Content) : Decidable c.Good :=
  decidable_of_iff (c.problem? = none) Content.problem?_eq_none_iff

/-! ### Faults of fields -/

def Field.fault? (f : Field) : Option (Place × Problem) :=
  f.content.problem?.map (f.place, ·)

/-- The faults of fields, in the order of the fields. -/
def faultsOf (fs : List Field) : List (Place × Problem) :=
  fs.flatMap fun f => f.fault?.toList

theorem reports_atPlace {α : Type} {p : Place} {x : Except Problem α} {f : Field} (hplace : f.place = p)
    (hproblem : f.content.problem? = problem? x) : Reports (atPlace p x) f.fault?.toList := by
  rw [Field.fault?, hplace, hproblem]
  cases x with
  | error problem => rfl
  | ok a => exact ⟨a, rfl⟩

theorem faultsOf_flatMap {α : Type} (as : List α) (fields : Nat → α → List Field) :
    faultsOf (as.zipIdx.flatMap fun (a, i) => fields i a) = as.zipIdx.flatMap fun (a, i) => faultsOf (fields i a) :=
  List.flatMap_assoc

theorem faultsOf_cons (f : Field) (fs : List Field) : faultsOf (f :: fs) = f.fault?.toList ++ faultsOf fs :=
  List.flatMap_cons

theorem faultsOf_append (fs fs' : List Field) : faultsOf (fs ++ fs') = faultsOf fs ++ faultsOf fs' :=
  List.flatMap_append

theorem reports_variant (i : Nat) (name : String) (j k : Nat) (v : Variant) :
    Reports (v.check (.variantOpcode i name j k)) (faultsOf (v.fields i name j k)) :=
  (reports_atPlace rfl rfl).bind fun _ _ => ⟨_, rfl⟩

theorem reports_form (i : Nat) (name : String) (j : Nat) (f : Form) :
    Reports (f.check i name j) (faultsOf (f.fields i name j)) := by
  rw [Form.fields, faultsOf_cons, faultsOf_flatMap]
  refine (reports_atPlace rfl rfl).bind fun _ _ => ?_
  rw [← List.append_nil (List.flatMap _ _)]
  exact (Reports.traverse (reports_variant i name j) 0 f.typeVariants).bind fun _ _ => ⟨_, rfl⟩

theorem reports_register (i : Nat) (r : Register) : Reports (r.check i) (faultsOf (r.fields i)) := by
  refine (reports_atPlace rfl rfl).bind fun name hname => ?_
  obtain ⟨rfl, -⟩ := checkName_eq_ok_iff.1 (mapError_eq_ok_iff.1 hname)
  exact (reports_atPlace rfl rfl).bind fun _ _ => ⟨_, rfl⟩

theorem reports_instruction (i : Nat) (x : Instruction) : Reports (x.check i) (faultsOf (x.fields i)) := by
  rw [Instruction.fields, faultsOf_cons, faultsOf_flatMap]
  refine (reports_atPlace rfl rfl).bind fun name hname => ?_
  obtain ⟨rfl, -⟩ := checkName_eq_ok_iff.1 (mapError_eq_ok_iff.1 hname)
  rw [← List.append_nil (List.flatMap _ _)]
  exact (Reports.traverse (reports_form i x.name) 0 x.paramList).bind fun _ _ => ⟨_, rfl⟩

/-- A document is checked field by field, in the order of its fields. -/
theorem reports_check (d : Document) : Reports d.check (faultsOf d.fields) := by
  rw [fields, faultsOf_append, faultsOf_flatMap, faultsOf_flatMap]
  refine (Reports.traverse reports_register 0 d.registers).bind fun _ _ => ?_
  rw [← List.append_nil (List.flatMap _ _)]
  exact (Reports.traverse reports_instruction 0 d.instructions).bind fun _ _ => ⟨_, rfl⟩

theorem Field.fault?_eq_none_iff {f : Field} : f.fault? = none ↔ f.content.Good := by
  rw [Field.fault?, Option.map_eq_none_iff, Content.problem?_eq_none_iff]

theorem faultsOf_eq_nil_iff {fs : List Field} : faultsOf fs = [] ↔ ∀ f ∈ fs, f.content.Good := by
  simp only [faultsOf, List.flatMap_eq_nil_iff, Option.toList_eq_nil_iff, Field.fault?_eq_none_iff]

theorem exists_of_head?_faultsOf {fs : List Field} {fault : Place × Problem} (h : (faultsOf fs).head? = some fault) :
    ∃ before f after, fs = before ++ f :: after ∧ (∀ g ∈ before, g.content.Good) ∧ ¬ f.content.Good ∧
      fault.1 = f.place := by
  rw [faultsOf, ← List.filterMap_eq_flatMap_toList, List.head?_filterMap, List.findSome?_eq_some_iff] at h
  obtain ⟨before, f, after, rfl, hfault, hbefore⟩ := h
  refine ⟨before, f, after, rfl, fun g hg => Field.fault?_eq_none_iff.1 (hbefore g hg), fun hgood => ?_, ?_⟩
  · rw [Field.fault?_eq_none_iff.2 hgood] at hfault
    cases hfault
  · obtain ⟨problem, -, rfl⟩ := Option.map_eq_some_iff.1 hfault
    rfl

end Document

/-! ### Loading -/

namespace Description

open Document

/-- Whatever a document was read from, it is no description exactly if a field of it is bad: a name that is empty or has
other characters than printable ASCII without spaces, quotes and backslashes, a code that is no byte, or an opcode that
is neither a byte nor a symbol.  The complaint is about the first bad field in the order of the registers, the
instructions, their forms and their variants, and begins with what that field is called. -/
theorem load_eq_first_bad_field {s : List UInt8} {d : Document} (hread : Document.read s = .ok d) :
    ((∃ e, load s = .error e) ↔ ∃ f ∈ d.fields, ¬ f.content.Good) ∧
    ∀ e, load s = .error e → ∃ before f after problem, d.fields = before ++ f :: after ∧
      (∀ g ∈ before, g.content.Good) ∧ ¬ f.content.Good ∧ e = .content f.place problem ∧
      e.message = "Malformed instruction-set description: " ++ (f.context ++ ": " ++ problem.text) := by
  have hreports := reports_check d
  have hload : load s = d.check.mapError fun p => .content p.1 p.2 := by
    rw [load, hread]
  simp only [hload, mapError_eq_error_iff]
  constructor
  · have hgood := hreports.exists_ok_iff.trans faultsOf_eq_nil_iff
    cases hcheck : d.check with
    | ok x =>
      have hall := hgood.1 ⟨x, hcheck⟩
      exact iff_of_false (by simp) (by simpa using hall)
    | error fault =>
      have hnotall : ¬ ∀ f ∈ d.fields, f.content.Good := by
        rw [← hgood, hcheck]
        simp
      refine iff_of_true ⟨_, fault, rfl, rfl⟩ ?_
      simpa using hnotall
  · rintro e ⟨fault, hfault, rfl⟩
    obtain ⟨before, f, after, hfields, hbefore, hbad, hplace⟩ :=
      exists_of_head?_faultsOf (hreports.eq_error_iff.1 hfault)
    refine ⟨before, f, after, fault.2, hfields, hbefore, hbad, by rw [hplace], ?_⟩
    rw [f.context_eq, ← hplace]
    rfl

/-- The first of three bad fields stands last in the text. -/
theorem load_eq_first_bad_field_reordered :
    let s := Utf8.encode ("\x7b\"instructions\": [\x7b\"paramList\": [\x7b\"typeVariants\": [], \"params\": [], " ++
      "\"encodeType\": false, \"opcode\": \"a b\"\x7d], \"name\": \"\"\x7d], " ++
      "\"registers\": [\x7b\"bytecode\": 256, \"name\": \"r0\"\x7d]\x7d")
    ∃ (e : Fault) (problem : Problem), load s = .error e ∧
      e.message = "Malformed instruction-set description: " ++
        ("registers[0] (r0).bytecode" ++ ": " ++ problem.text) := by
  intro s
  let d : Document := ⟨[⟨"r0", .natural 256⟩], [⟨"", [⟨.text "a b", false, [], []⟩]⟩]⟩
  have hread : Document.read s = .ok d := toOption_eq_some_iff.1 (by decide +kernel)
  obtain ⟨hiff, hfirst⟩ := load_eq_first_bad_field hread
  have hname : (Content.name "r0").Good := by decide
  have hcode : ¬ (Content.code (.natural 256)).Good := by decide
  obtain ⟨e, he⟩ := hiff.2 ⟨_, List.mem_cons_of_mem _ List.mem_cons_self, hcode⟩
  obtain ⟨before, f, after, problem, hfields, hbefore, hbad, -, hmessage⟩ := hfirst e he
  refine ⟨e, problem, he, ?_⟩
  rcases before with _ | ⟨g, _ | ⟨g', before⟩⟩
  · cases hfields
    exact absurd hname hbad
  · cases hfields
    exact hmessage
  · have hsecond := (List.cons.inj (List.cons.inj hfields).2).1
    have hgood := hbefore _ (List.mem_cons_of_mem _ List.mem_cons_self)
    rw [← hsecond] at hgood
    exact absurd hgood hcode

end Description

end OpcodeTables
