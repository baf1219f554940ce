import OpcodeTables.Proofs.Tables.Build

/-!
# Faults of descriptions

All faults of a description, in the order in which they count (`Description.faults`): too many instructions, registers
that repeat a name, then instruction by instruction a repeated name and, form by form, the tags of operands that are
unknown, then variant by variant a tag of a type that is unknown or, for a strict policy, a type that repeats.  Tables
are built just if there are none (`Description.faults_eq_nil_iff`), and otherwise the first one is reported
(`Description.reports_tables`).
-/

namespace OpcodeTables

namespace Indexed

variable {α β κ : Type}

/-- What is found at each element of a list, given the elements before it. -/
def collect (f : List α → α → List β) (as : List α) : List β :=
  as.zipIdx.flatMap fun (a, i) => f (as.take i) a

theorem collect_cons (f : List α → α → List β) (a : α) (as : List α) :
    collect f (a :: as) = f [] a ++ collect (fun before => f (a :: before)) as := by
  rw [collect, List.zipIdx_cons', List.flatMap_cons, List.flatMap_map]
  rfl

/-- What depends on the keys before an element depends, after the first one, on the key of this too. -/
theorem collect_keys_cons {key : α → κ} {f : List κ → α → List β}
    (hf : ∀ s s' a, (∀ k, k ∈ s ↔ k ∈ s') → f s a = f s' a) (seen : List κ) (a : α) (as : List α) :
    collect (fun before => f (seen ++ before.map key)) (a :: as) =
      f seen a ++ collect (fun before => f (key a :: seen ++ before.map key)) as := by
  rw [collect_cons, List.map_nil, List.append_nil]
  congr 2
  funext before b
  refine hf _ _ b fun k => ?_
  simp only [List.map_cons, List.mem_append, List.mem_cons]
  tauto

theorem collect_eq_nil_iff {f : List α → α → List β} {as : List α} :
    collect f as = [] ↔ ∀ i a, as[i]? = some a → f (as.take i) a = [] := by
  rw [collect, List.flatMap_eq_nil_iff]
  constructor
  · intro h i a ha
    exact h (a, i) (List.mem_zipIdx_iff_getElem?.2 ha)
  · intro h e he
    exact h e.2 e.1 (List.mem_zipIdx_iff_getElem?.1 he)

theorem nodup_map_iff {key : α → κ} {as : List α} :
    (as.map key).Nodup ↔ ∀ i a, as[i]? = some a → key a ∉ (as.take i).map key := by
  rw [List.nodup_iff_pairwise_ne, List.pairwise_map, List.pairwise_iff_getElem]
  constructor
  · intro h i a ha hmem
    obtain ⟨hi, rfl⟩ := List.getElem?_eq_some_iff.1 ha
    obtain ⟨b, hb, hkey⟩ := List.mem_map.1 hmem
    obtain ⟨k, hk, rfl⟩ := List.mem_take_iff_getElem.1 hb
    exact h k i (by omega) hi (by omega) hkey
  · intro h i k hi hk hik hkey
    refine h k as[k] (List.getElem?_eq_getElem hk) (List.mem_map.2 ⟨as[i], ?_, hkey⟩)
    exact List.mem_take_iff_getElem.2 ⟨i, by omega, rfl⟩

end Indexed

/-! ### The faults -/

namespace Description

open Tables (BuildFault)

/-- The fault of a register after those with the given names. -/
def Register.faults (earlier : List String) (r : Register) : List BuildFault :=
  if r.name ∈ earlier then [.duplicateName .register r.name] else []

/-- The fault of a variant after those for the given types. -/
def Variant.faults (policy : VariantPolicy) (instruction : String) (j : Nat) (earlier : List String) (v : Variant) :
    List BuildFault :=
  match NumericType.ofTag v.type with
  | .error unknown => [.unknownTag instruction j unknown]
  | .ok type => if policy = .strict ∧ v.type ∈ earlier then [.duplicateVariant instruction j type] else []

/-- The faults of the form at position `j` of an instruction. -/
def Form.faults (policy : VariantPolicy) (instruction : String) (j : Nat) (f : Form) : List BuildFault :=
  (f.params.flatMap fun tag =>
      if tag ∈ OperandKind.tags then [] else [.unknownTag instruction j ⟨.operandKind, tag⟩]) ++
    Indexed.collect (fun before => Variant.faults policy instruction j (before.map (·.type))) f.variants

/-- The faults of an instruction after those with the given names. -/
def Instruction.faults (policy : VariantPolicy) (earlier : List String) (x : Instruction) : List BuildFault :=
  (if x.name ∈ earlier then [.duplicateName .instruction x.name] else []) ++
    x.forms.zipIdx.flatMap fun (f, j) => f.faults policy x.name j

/-- The faults of a description, in the order in which they count. -/
def faults (policy : VariantPolicy) (d : Description) : List BuildFault :=
  (if Tables.maxInstructions < d.instructions.length then [.tooManyInstructions d.instructions.length] else []) ++
    Indexed.collect (fun before => Register.faults (before.map (·.name))) d.registers ++
    Indexed.collect (fun before => Instruction.faults policy (before.map (·.name))) d.instructions

end Description

/-! ### What the steps report -/

namespace Tables

open Description (Register Variant Instruction)

theorem reports_registerEntries (seen : List String) (rs : List Register) :
    Reports (registerEntries seen rs)
      (Indexed.collect (fun before => Register.faults (seen ++ before.map (·.name))) rs) := by
  have hkeys : ∀ s s' (r : Register), (∀ n, n ∈ s ↔ n ∈ s') → Register.faults s r = Register.faults s' r := by
    intro s s' r h
    simp only [Register.faults, h]
  induction rs generalizing seen with
  | nil => exact ⟨[], rfl⟩
  | cons r rs ih =>
    rw [Indexed.collect_keys_cons hkeys, registerEntries, Register.faults]
    by_cases hr : r.name ∈ seen
    · rw [if_pos hr, if_pos hr]
      rfl
    · rw [if_neg hr, if_neg hr]
      exact (ih (r.name :: seen)).map

theorem reports_variantEntries (policy : VariantPolicy) (instruction : String) (j : Nat) (seen : List NumericType)
    (vs : List Variant) :
    Reports (variantEntries policy instruction j seen vs)
      (Indexed.collect (fun before => Variant.faults policy instruction j (seen.map (·.tag) ++ before.map (·.type)))
        vs) := by
  have hkeys : ∀ s s' (v : Variant), (∀ n, n ∈ s ↔ n ∈ s') →
      Variant.faults policy instruction j s v = Variant.faults policy instruction j s' v := by
    intro s s' v h
    simp only [Variant.faults, h]
  induction vs generalizing seen with
  | nil => exact ⟨[], rfl⟩
  | cons v vs ih =>
    rw [Indexed.collect_keys_cons hkeys, variantEntries, Variant.faults]
    cases htype : NumericType.ofTag v.type with
    | error unknown => rfl
    | ok type =>
      have htag := NumericType.ofTag_eq_ok_iff.1 htype
      -- the types seen are told apart by their tags
      have hseen : v.type ∈ seen.map (·.tag) ↔ type ∈ seen := by
        rw [htag]
        exact List.mem_map_of_injective NumericType.tag_injective
      simp only [hseen]
      by_cases hv : policy = .strict ∧ type ∈ seen
      · rw [if_pos hv, if_pos hv]
        rfl
      · rw [if_neg hv, if_neg hv]
        have hrest := (ih (type :: seen)).map (f := (⟨type, v.opcode⟩ :: ·))
        rw [List.map_cons, ← htag] at hrest
        exact hrest

theorem reports_kinds (instruction : String) (j : Nat) (tags : List String) :
    Reports (kinds instruction j tags)
      (tags.flatMap fun tag =>
        if tag ∈ OperandKind.tags then [] else [.unknownTag instruction j ⟨.operandKind, tag⟩]) := by
  have htag : ∀ (_ : Nat) (tag : String),
      Reports ((OperandKind.ofTag tag).mapError (BuildFault.unknownTag instruction j))
        (if tag ∈ OperandKind.tags then [] else [.unknownTag instruction j ⟨.operandKind, tag⟩]) := by
    intro _ tag
    cases hk : OperandKind.ofTag tag with
    | error unknown =>
      obtain ⟨hunknown, rfl⟩ := OperandKind.ofTag_eq_error_iff.1 hk
      rw [if_neg hunknown]
      rfl
    | ok k =>
      have hknown : tag ∈ OperandKind.tags := by
        rw [OperandKind.ofTag_eq_ok_iff.1 hk]
        exact List.mem_map_of_mem (OperandKind.mem_tabulated k)
      rw [if_pos hknown]
      exact ⟨k, rfl⟩
  have h := Reports.traverse htag 0 tags
  -- the positions of the tags do not matter
  have hfst := List.flatMap_map Prod.fst
    (fun tag => if tag ∈ OperandKind.tags then [] else [BuildFault.unknownTag instruction j ⟨.operandKind, tag⟩])
    tags.zipIdx
  rw [List.zipIdx_map_fst] at hfst
  rw [hfst]
  exact h

theorem reports_formOf (policy : VariantPolicy) (instruction : String) (j : Nat) (f : Description.Form) :
    Reports (formOf policy instruction j f) (f.faults policy instruction j) := by
  have hvariants := reports_variantEntries policy instruction j [] f.variants
  refine (reports_kinds instruction j f.params).bind fun ks _ => ?_
  rw [← List.append_nil (Indexed.collect _ _)]
  exact hvariants.bind fun es _ => ⟨_, rfl⟩

theorem reports_instructionForms (policy : VariantPolicy) (seen : List String) (xs : List Instruction) :
    Reports (instructionForms policy seen xs)
      (Indexed.collect (fun before => Instruction.faults policy (seen ++ before.map (·.name))) xs) := by
  have hkeys : ∀ s s' (x : Instruction), (∀ n, n ∈ s ↔ n ∈ s') →
      Instruction.faults policy s x = Instruction.faults policy s' x := by
    intro s s' x h
    simp only [Instruction.faults, h]
  induction xs generalizing seen with
  | nil => exact ⟨[], rfl⟩
  | cons x xs ih =>
    rw [Indexed.collect_keys_cons hkeys, instructionForms, Instruction.faults]
    by_cases hx : x.name ∈ seen
    · rw [if_pos hx, if_pos hx]
      rfl
    · rw [if_neg hx, if_neg hx, List.nil_append]
      have hforms := Reports.traverse (reports_formOf policy x.name) 0 x.forms
      have hrest := hforms.bind (f := fun forms => (instructionForms policy (x.name :: seen) xs).map (forms :: ·))
        fun forms _ => (ih (x.name :: seen)).map
      generalize Indexed.traverse (formOf policy x.name) 0 x.forms = forms at hrest ⊢
      cases forms <;> exact hrest

end Tables

/-! ### Failing builds -/

namespace Description

theorem reports_tables (policy : VariantPolicy) (d : Description) : Reports (d.tables policy) (d.faults policy) := by
  rw [tables, faults]
  by_cases hcount : Tables.maxInstructions < d.instructions.length
  · rw [if_pos hcount, if_pos hcount]
    rfl
  · rw [if_neg hcount, if_neg hcount, List.nil_append]
    refine (Tables.reports_registerEntries [] d.registers).bind fun es _ => ?_
    rw [← List.append_nil (Indexed.collect _ _)]
    exact (Tables.reports_instructionForms policy [] d.instructions).bind fun fss _ => ⟨_, rfl⟩

/-- The tags of a form are known, and the policy allows its variants. -/
structure Form.Sound (policy : VariantPolicy) (f : Form) : Prop where
  params : ∀ tag ∈ f.params, tag ∈ OperandKind.tags
  types : ∀ v ∈ f.variants, v.type ∈ NumericType.tags
  distinct : policy = .strict → (f.variants.map (·.type)).Nodup

/-- Nothing is wrong with the description. -/
structure Sound (policy : VariantPolicy) (d : Description) : Prop where
  count : d.instructions.length ≤ 256
  registers : (d.registers.map (·.name)).Nodup
  instructions : (d.instructions.map (·.name)).Nodup
  forms : ∀ x ∈ d.instructions, ∀ f ∈ x.forms, f.Sound policy

theorem Form.faults_eq_nil_iff {policy : VariantPolicy} {instruction : String} {j : Nat} {f : Form} :
    f.faults policy instruction j = [] ↔ f.Sound policy := by
  have hvariant : ∀ (earlier : List String) (v : Variant), v.faults policy instruction j earlier = [] ↔
      v.type ∈ NumericType.tags ∧ (policy = .strict → v.type ∉ earlier) := by
    intro earlier v
    rw [Variant.faults]
    cases htype : NumericType.ofTag v.type with
    | error unknown => simp [(NumericType.ofTag_eq_error_iff.1 htype).1]
    | ok type =>
      have hknown : v.type ∈ NumericType.tags := by
        rw [NumericType.ofTag_eq_ok_iff.1 htype]
        exact List.mem_map_of_mem (NumericType.mem_all type)
      simp [hknown]
  rw [faults, List.append_eq_nil_iff, List.flatMap_eq_nil_iff, Indexed.collect_eq_nil_iff]
  simp only [hvariant]
  constructor
  · rintro ⟨hparams, hvariants⟩
    refine ⟨fun tag htag => ?_, fun v hv => ?_, fun hstrict => Indexed.nodup_map_iff.2 fun i v hv => ?_⟩
    · by_contra hunknown
      have := hparams tag htag
      rw [if_neg hunknown] at this
      cases this
    · obtain ⟨i, hi⟩ := List.mem_iff_getElem?.1 hv
      exact (hvariants i v hi).1
    · exact (hvariants i v hv).2 hstrict
  · intro h
    refine ⟨fun tag htag => if_pos (h.params tag htag), fun i v hv => ⟨h.types v (List.mem_of_getElem? hv), ?_⟩⟩
    exact fun hstrict => Indexed.nodup_map_iff.1 (h.distinct hstrict) i v hv

theorem Instruction.faults_eq_nil_iff {policy : VariantPolicy} {earlier : List String} {x : Instruction} :
    x.faults policy earlier = [] ↔ x.name ∉ earlier ∧ ∀ f ∈ x.forms, f.Sound policy := by
  rw [faults, List.append_eq_nil_iff, List.flatMap_eq_nil_iff]
  simp only [Form.faults_eq_nil_iff]
  constructor
  · rintro ⟨hname, hforms⟩
    refine ⟨fun hearlier => ?_, fun f hf => ?_⟩
    · rw [if_pos hearlier] at hname
      cases hname
    · obtain ⟨j, hj⟩ := List.mem_iff_getElem?.1 hf
      exact hforms (f, j) (List.mem_zipIdx_iff_getElem?.2 hj)
  · rintro ⟨hname, hforms⟩
    exact ⟨if_neg hname, fun e he => hforms e.1 (List.mem_of_getElem? (List.mem_zipIdx_iff_getElem?.1 he))⟩

theorem faults_eq_nil_iff {policy : VariantPolicy} {d : Description} : d.faults policy = [] ↔ d.Sound policy := by
  have hregister : ∀ (earlier : List String) (r : Register), r.faults earlier = [] ↔ r.name ∉ earlier := by
    intro earlier r
    rw [Register.faults]
    by_cases hr : r.name ∈ earlier <;> simp [hr]
  rw [faults, List.append_eq_nil_iff, List.append_eq_nil_iff, Indexed.collect_eq_nil_iff, Indexed.collect_eq_nil_iff,
    Tables.maxInstructions]
  simp only [hregister, Instruction.faults_eq_nil_iff]
  constructor
  · rintro ⟨⟨hcount, hregisters⟩, hinstructions⟩
    refine ⟨?_, Indexed.nodup_map_iff.2 hregisters, Indexed.nodup_map_iff.2 fun i x hx => (hinstructions i x hx).1, ?_⟩
    · by_contra hmany
      rw [if_pos (by omega)] at hcount
      cases hcount
    · intro x hx
      obtain ⟨i, hi⟩ := List.mem_iff_getElem?.1 hx
      exact (hinstructions i x hi).2
  · intro h
    refine ⟨⟨if_neg (by have := h.count; omega), Indexed.nodup_map_iff.1 h.registers⟩, fun i x hx => ⟨?_, ?_⟩⟩
    · exact Indexed.nodup_map_iff.1 h.instructions i x hx
    · exact h.forms x (List.mem_of_getElem? hx)

/-- A build succeeds just if nothing is wrong with the description, and otherwise fails with its first fault. -/
theorem build_eq_first_fault (policy : VariantPolicy) (d : Description) :
    ((∃ t, d.build policy = .ok t) ↔ d.Sound policy) ∧
    ∀ e, d.build policy = .error e ↔ ∃ fault, (d.faults policy).head? = some fault ∧ e = .malformed fault := by
  have hreports := reports_tables policy d
  constructor
  · have hbuild : ∀ t, d.build policy = .ok t ↔ d.tables policy = .ok t := by
      intro t
      rw [build_eq_ok_iff, tables_eq_ok_iff]
    simp only [hbuild]
    rw [hreports.exists_ok_iff, faults_eq_nil_iff]
  · intro e
    simp only [build_eq_error_iff, hreports.eq_error_iff]

example :
    let forms : List Form :=
      [⟨.symbol "A", true, ["iT"], [⟨"i8", .symbol "B"⟩, ⟨"i16", .symbol "C"⟩, ⟨"i8", .symbol "D"⟩]⟩,
        ⟨.symbol "E", true, ["iT", "xReg"], [⟨"u8", .symbol "F"⟩]⟩]
    faults .strict ⟨[⟨"r0", 0⟩], [⟨"add", forms⟩, ⟨"add", []⟩]⟩ =
      [.duplicateVariant "add" 0 .i8, .unknownTag "add" 1 ⟨.operandKind, "xReg"⟩,
        .unknownTag "add" 1 ⟨.numericType, "u8"⟩, .duplicateName .instruction "add"] := by
  decide

end Description

end OpcodeTables
