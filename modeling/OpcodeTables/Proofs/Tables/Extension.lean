import OpcodeTables.Proofs.Names
import OpcodeTables.Proofs.Tables.Lookup

/-!
# Extending a description

The first registers and the first instructions of tables are tables of their own (`Tables.first`), which are well formed
and read back as the first part of the description (`Tables.WellFormed.first`, `Tables.description_first`).  So a
description can be built whenever it can be with more registers and instructions at its end, and what is looked up by a
name that they do not declare stays the same (`Description.build_append`).
-/

namespace OpcodeTables

/-- A search that fails behind the list ends in the list. -/
private theorem find?_append_of_forall_not {α : Type} {p : α → Bool} (as : List α) {bs : List α}
    (h : ∀ b ∈ bs, ¬ p b) : (as ++ bs).find? p = as.find? p := by
  rw [List.find?_append, List.find?_eq_none.2 h, Option.or_none]

private theorem not_mem_of_nodup_append {α : Type} {as bs : List α} (h : (as ++ bs).Nodup) {a : α} (ha : a ∈ as) :
    a ∉ bs :=
  fun hb => (List.nodup_append.1 h).2.2 a ha a hb rfl

private theorem map_eq_of_append {α β : Type} {f : α → β} {as as' : List α} {bs bs' : List β}
    (h : (as ++ as').map f = bs ++ bs') (hfirst : as.map f = bs) : as'.map f = bs' := by
  rw [List.map_append, hfirst] at h
  exact List.append_cancel_left h

namespace Tables

variable {policy : VariantPolicy} {t t' : Tables}

/-! ### First entries -/

/-- The tables of the first `n` registers and the first `m` instructions. -/
def first (t : Tables) (n m : Nat) : Tables :=
  { registers := t.registers.take n, index := t.index.take m, instructions := t.instructions.take m }

theorem description_first (t : Tables) (n m : Nat) :
    (t.first n m).description =
      { registers := t.description.registers.take n, instructions := t.description.instructions.take m } := by
  simp only [description, first, List.map_take, List.take_zipWith]

theorem Aligned.first (h : t.Aligned) (n m : Nat) : (t.first n m).Aligned where
  length_eq := by
    simp only [Tables.first, List.length_take, h.length_eq]
  index_eq := by
    intro i e he
    have hm := List.mem_of_getElem? he
    rw [Tables.first, List.getElem?_take] at he
    split at he
    · exact h.index_eq i e he
    · cases he
  consistent fs hfs := h.consistent fs (List.mem_of_mem_take hfs)

theorem WellFormed.first (h : t.WellFormed policy) (n m : Nat) : (t.first n m).WellFormed policy where
  aligned := h.aligned.first n m
  registers := h.registers.sublist ((List.take_sublist n t.registers).map _)
  instructions := h.instructions.sublist ((List.take_sublist m t.index).map _)
  variants fs hfs := h.variants fs (List.mem_of_mem_take hfs)

/-! ### Lookups -/

theorem registerCode?_append {rs : List RegisterEntry} (h : t'.registers = t.registers ++ rs) {name : String}
    (hname : name ∉ rs.map (·.name)) : t.registerCode? name = t'.registerCode? name := by
  rw [registerCode?, registerCode?, h, find?_append_of_forall_not]
  intro r hr hrname
  exact hname (List.mem_map.2 ⟨r, hr, of_decide_eq_true hrname⟩)

theorem indexOf?_append {es : List IndexEntry} (h : t'.index = t.index ++ es) {name : String}
    (hname : name ∉ es.map (·.name)) : t.indexOf? name = t'.indexOf? name := by
  rw [indexOf?, indexOf?, h, find?_append_of_forall_not]
  intro e he hename
  exact hname (List.mem_map.2 ⟨e, he, of_decide_eq_true hename⟩)

/-- The position of an instruction is one at which there are forms. -/
theorem Aligned.lt_of_indexOf? (h : t.Aligned) {name : String} {i : Nat} (hi : t.indexOf? name = some i) :
    i < t.instructions.length := by
  obtain ⟨e, he, rfl⟩ := Option.map_eq_some_iff.1 hi
  obtain ⟨k, hk⟩ := List.mem_iff_getElem?.1 (List.mem_of_find?_eq_some he)
  obtain rfl := h.index_eq k e hk
  rw [← h.length_eq]
  exact (List.getElem?_eq_some_iff.1 hk).1

theorem Aligned.resolveByName_append (h : t.Aligned) {es : List IndexEntry} {fss : List (List Form)}
    (hindex : t'.index = t.index ++ es) (hforms : t'.instructions = t.instructions ++ fss) {name : String}
    (hname : name ∉ es.map (·.name)) (ks : List OperandKind) :
    (SignatureTrees.ofTables t).resolveByName name ks = (SignatureTrees.ofTables t').resolveByName name ks := by
  have hresolve : ∀ t : Tables, (SignatureTrees.ofTables t).resolveByName name ks =
      (t.indexOf? name).bind fun i => (SignatureTrees.ofTables t).resolve i ks := fun _ => rfl
  rw [hresolve, hresolve, ← indexOf?_append hindex hname]
  cases hi : t.indexOf? name with
  | none => rfl
  | some i =>
    have hlt := h.lt_of_indexOf? hi
    rw [Option.bind_some, Option.bind_some, SignatureTrees.resolve_eq, SignatureTrees.resolve_eq, forms?, forms?,
      hforms, List.getElem?_append_left hlt]

end Tables

namespace Description

/-- The description with more registers and instructions at its end. -/
def append (d : Description) (rs : List Register) (xs : List Instruction) : Description :=
  { registers := d.registers ++ rs, instructions := d.instructions ++ xs }

/-- A description that can be built with more at its end is built to the first entries. -/
theorem build_first {policy : VariantPolicy} {d : Description} {rs : List Register} {xs : List Instruction} {t : Tables}
    (hbuild : (d.append rs xs).build policy = .ok t) :
    d.build policy = .ok (t.first d.registers.length d.instructions.length) := by
  obtain ⟨hd, h⟩ := build_eq_ok_iff.1 hbuild
  refine build_eq_ok_iff.2 ⟨?_, h.first _ _⟩
  rw [Tables.description_first, hd, append, List.take_left, List.take_left]

/-- Extending a description never disturbs what was there.  If it can be built with more registers and instructions at
its end, it can be built without them, and to tables that those of the longer one begin with.  A register that is
declared before, or not declared at all by what is new, has the same code in both, and such an instruction the same
position and the same forms for all operands. -/
theorem build_append {policy : VariantPolicy} {d : Description} {rs : List Register} {xs : List Instruction}
    {t' : Tables} (hbuild : (d.append rs xs).build policy = .ok t') :
    ∃ t, d.build policy = .ok t ∧ t.registers <+: t'.registers ∧ t.index <+: t'.index ∧
      t.instructions <+: t'.instructions ∧
      (∀ name, name ∈ d.registers.map (·.name) ∨ name ∉ rs.map (·.name) →
        t.registerCode? name = t'.registerCode? name) ∧
      ∀ name, name ∈ d.instructions.map (·.name) ∨ name ∉ xs.map (·.name) →
        t.indexOf? name = t'.indexOf? name ∧
        ∀ ks, (SignatureTrees.ofTables t).resolveByName name ks =
          (SignatureTrees.ofTables t').resolveByName name ks := by
  have hfirst := build_first hbuild
  obtain ⟨-, hwf⟩ := build_eq_ok_iff.1 hbuild
  obtain ⟨hregisters, hindex⟩ := map_name_build hbuild
  obtain ⟨hregisters₁, hindex₁⟩ := map_name_build hfirst
  have haligned := aligned_of_build hfirst
  generalize ht : t'.first d.registers.length d.instructions.length = t at *
  obtain ⟨es, hes⟩ : t.registers <+: t'.registers := ht ▸ List.take_prefix _ _
  obtain ⟨is, his⟩ : t.index <+: t'.index := ht ▸ List.take_prefix _ _
  obtain ⟨fss, hfss⟩ : t.instructions <+: t'.instructions := ht ▸ List.take_prefix _ _
  rw [append, List.map_append] at hregisters hindex
  have hnew : es.map (·.name) = rs.map (·.name) := map_eq_of_append (hes ▸ hregisters) hregisters₁
  have hnewIndex : is.map (·.name) = xs.map (·.name) := map_eq_of_append (his ▸ hindex) hindex₁
  refine ⟨t, hfirst, ⟨es, hes⟩, ⟨is, his⟩, ⟨fss, hfss⟩, ?_, ?_⟩
  · intro name hname
    have hname : name ∉ rs.map (·.name) := hname.elim (not_mem_of_nodup_append (hregisters ▸ hwf.registers)) id
    exact Tables.registerCode?_append hes.symm (hnew ▸ hname)
  · intro name hname
    have hname : name ∉ xs.map (·.name) := hname.elim (not_mem_of_nodup_append (hindex ▸ hwf.instructions)) id
    rw [← hnewIndex] at hname
    exact ⟨Tables.indexOf?_append his.symm hname, haligned.resolveByName_append his.symm hfss.symm hname⟩

/-- A register and an instruction of one name, and a form that shadows another one, extended by an instruction that is
called like a register. -/
theorem build_append_shared_names :
    let d : Description :=
      { registers := [⟨"r0", 5⟩, ⟨"add", 6⟩],
        instructions := [⟨"add", [⟨.literal 1 "1", false, ["int"], []⟩, ⟨.symbol "OP_ADD", true, ["int"], []⟩]⟩] }
    let rs : List Register := [⟨"sp", 5⟩]
    let xs : List Instruction := [⟨"nop", []⟩, ⟨"r0", [⟨.literal 9 "9", false, ["int"], []⟩]⟩]
    ∃ t t', d.build .strict = .ok t ∧ (d.append rs xs).build .strict = .ok t' ∧
      t.registers <+: t'.registers ∧ t.index <+: t'.index ∧ t.instructions <+: t'.instructions ∧
      t.registerCode? "r0" = t'.registerCode? "r0" ∧ t'.registerCode? "r0" = some 5 ∧
      t.indexOf? "add" = t'.indexOf? "add" ∧ t'.indexOf? "add" = some 0 ∧ t'.indexOf? "r0" = some 2 ∧
      ∀ ks, (SignatureTrees.ofTables t).resolveByName "add" ks =
        (SignatureTrees.ofTables t').resolveByName "add" ks := by
  intro d rs xs
  let t' : Tables :=
    { registers := [⟨"r0", 5⟩, ⟨"add", 6⟩, ⟨"sp", 5⟩], index := [⟨"add", 0⟩, ⟨"nop", 1⟩, ⟨"r0", 2⟩],
      instructions :=
        [[⟨.literal 1 "1", ⟨false, false⟩, [.intNum], []⟩, ⟨.symbol "OP_ADD", ⟨true, false⟩, [.intNum], []⟩], [],
          [⟨.literal 9 "9", ⟨false, false⟩, [.intNum], []⟩]] }
  have hbuild : (d.append rs xs).build .strict = .ok t' := rfl
  obtain ⟨t, ht, hregisters, hindex, hforms, hcode, hname⟩ := build_append hbuild
  obtain ⟨hadd, hresolve⟩ := hname "add" (.inl List.mem_cons_self)
  exact ⟨t, t', ht, hbuild, hregisters, hindex, hforms, hcode "r0" (.inl List.mem_cons_self), rfl, hadd, rfl, rfl,
    hresolve⟩

/-- Registers and instructions have names of their own: an instruction that is added may be called like a register that
was there, and then the name has a position that it did not have. -/
theorem build_append_register_name :
    let d : Description := { registers := [⟨"r0", 5⟩], instructions := [] }
    let xs : List Instruction := [⟨"r0", [⟨.literal 1 "1", false, ["int"], []⟩]⟩]
    ∃ t t', d.build .strict = .ok t ∧ (d.append [] xs).build .strict = .ok t' ∧ "r0" ∈ d.names ∧
      t.indexOf? "r0" = none ∧ t'.indexOf? "r0" = some 0 :=
  ⟨{ registers := [⟨"r0", 5⟩], index := [], instructions := [] },
    { registers := [⟨"r0", 5⟩], index := [⟨"r0", 0⟩],
      instructions := [[⟨.literal 1 "1", ⟨false, false⟩, [.intNum], []⟩]] },
    rfl, rfl, List.mem_cons_self, rfl, rfl⟩

end Description

end OpcodeTables
