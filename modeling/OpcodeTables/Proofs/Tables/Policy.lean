import Mathlib.Data.List.Forall2
import OpcodeTables.Proofs.Tables.Faults

/-!
# The two policies for variants

The faults that the lenient policy finds are those of the strict one other than repeated types
(`Description.faults_lastWins`), so a strict build ends as a lenient one does or at the first type that repeats
(`Description.firstRepeat_of_head?`).  Without the variants that a later one shadows, no type repeats; what remains is
built by the strict policy, and to tables that encode in the same way (`Tables.WellFormed.withoutShadowed`,
`Tables.Form.encodesAs_withoutShadowed`).
-/

namespace OpcodeTables

/-! ### The last element for each key -/

section

variable {α β κ κ' : Type} [DecidableEq κ] [DecidableEq κ']

/-- The elements whose key no later element has. -/
def lastOfEach (key : α → κ) : List α → List α
  | [] => []
  | a :: as => if key a ∈ as.map key then lastOfEach key as else a :: lastOfEach key as

variable {key : α → κ}

theorem mem_map_lastOfEach {as : List α} {k : κ} : k ∈ (lastOfEach key as).map key ↔ k ∈ as.map key := by
  induction as with
  | nil => rfl
  | cons a as ih =>
    rw [lastOfEach, List.map_cons, List.mem_cons]
    split
    · rename_i ha
      rw [ih]
      refine ⟨Or.inr, fun hk => hk.elim ?_ id⟩
      rintro rfl
      exact ha
    · rw [List.map_cons, List.mem_cons, ih]

theorem nodup_lastOfEach (as : List α) : ((lastOfEach key as).map key).Nodup := by
  induction as with
  | nil => exact List.nodup_nil
  | cons a as ih =>
    rw [lastOfEach]
    split
    · exact ih
    · rename_i ha
      rw [List.map_cons, List.nodup_cons, mem_map_lastOfEach]
      exact ⟨ha, ih⟩

theorem lastOfEach_eq_nil_iff {as : List α} : lastOfEach key as = [] ↔ as = [] := by
  have hmap : (lastOfEach key as).map key = [] ↔ as.map key = [] := by
    simp only [List.eq_nil_iff_forall_not_mem, mem_map_lastOfEach]
  rwa [List.map_eq_nil_iff, List.map_eq_nil_iff] at hmap

/-- Keys that are told apart in the same way leave the same elements. -/
theorem lastOfEach_map (f : α → β) {key' : β → κ'} {g : κ → κ'} (hg : Function.Injective g)
    (hkey : ∀ a, key' (f a) = g (key a)) (as : List α) : lastOfEach key' (as.map f) = (lastOfEach key as).map f := by
  have hkeys : ∀ as : List α, (as.map f).map key' = (as.map key).map g := by
    intro as
    rw [List.map_map, List.map_map]
    exact List.map_congr_left fun a _ => hkey a
  induction as with
  | nil => rfl
  | cons a as ih =>
    have ha : key' (f a) ∈ (as.map f).map key' ↔ key a ∈ as.map key := by
      rw [hkeys, hkey, List.mem_map_of_injective hg]
    rw [List.map_cons, lastOfEach, lastOfEach, ih]
    by_cases hlater : key a ∈ as.map key
    · rw [if_pos hlater, if_pos (ha.2 hlater)]
    · rw [if_neg hlater, if_neg (fun h => hlater (ha.1 h)), List.map_cons]

/-- A search for a key from behind finds the same element. -/
theorem find?_reverse_lastOfEach (as : List α) (k : κ) :
    (lastOfEach key as).reverse.find? (key · = k) = as.reverse.find? (key · = k) := by
  induction as with
  | nil => rfl
  | cons a as ih =>
    rw [lastOfEach, List.reverse_cons, List.find?_append]
    split
    · rename_i ha
      rw [ih]
      by_cases hk : key a = k
      · -- a later element with the key is found before this one
        obtain ⟨b, hb, hkey⟩ := List.mem_map.1 ha
        have hsome : (as.reverse.find? (key · = k)).isSome :=
          List.find?_isSome.2 ⟨b, List.mem_reverse.2 hb, by simp [hkey, hk]⟩
        rw [Option.or_of_isSome hsome]
      · simp [hk]
    · rw [List.reverse_cons, List.find?_append, ih]

end

/-! ### First elements of collected lists -/

namespace Indexed

variable {α β : Type}

theorem filter_collect (p : β → Bool) (f : List α → α → List β) (as : List α) :
    (collect f as).filter p = collect (fun before a => (f before a).filter p) as := by
  rw [collect, collect, List.filter_flatMap]

theorem flatMap_zipIdx_eq_collect (f : α → Nat → List β) (as : List α) :
    (as.zipIdx.flatMap fun (a, i) => f a i) = collect (fun before a => f a before.length) as := by
  rw [collect]
  refine List.flatMap_congr ?_
  rintro ⟨a, i⟩ he
  have hlt : i < as.length := (List.getElem?_eq_some_iff.1 (List.mem_zipIdx_iff_getElem?.1 he)).1
  have hlength : (as.take i).length = i := List.length_take_of_le (Nat.le_of_lt hlt)
  simp only [hlength]

/-- What is found first is found at an element before which nothing is found. -/
theorem exists_of_head?_collect {f : List α → α → List β} {as : List α} {b : β} (h : (collect f as).head? = some b) :
    ∃ before a after, as = before ++ a :: after ∧ (f before a).head? = some b ∧ collect f before = [] := by
  induction as generalizing f with
  | nil => cases h
  | cons a as ih =>
    rw [collect_cons, List.head?_append, Option.or_eq_some_iff] at h
    rcases h with h | ⟨hnone, h⟩
    · exact ⟨[], a, as, rfl, h, rfl⟩
    · obtain ⟨before, a', after, rfl, ha, hbefore⟩ := ih h
      refine ⟨a :: before, a', after, rfl, ha, ?_⟩
      rw [collect_cons, hbefore, List.head?_eq_none_iff.1 hnone]
      rfl

end Indexed

/-- What stands first in two lists and not in the first one stands first in the second one. -/
theorem head?_append_of_not_mem {β : Type} {as bs : List β} {b : β} (h : (as ++ bs).head? = some b) (hb : b ∉ as) :
    as = [] ∧ bs.head? = some b := by
  cases as with
  | nil => exact ⟨rfl, h⟩
  | cons a as =>
    cases h
    exact absurd List.mem_cons_self hb

/-! ### The faults of the two policies -/

/-- Whether the fault is one that the lenient policy lets pass. -/
def Tables.BuildFault.isRepeat : Tables.BuildFault → Bool
  | .duplicateVariant .. => true
  | _ => false

namespace Description

open Tables (BuildFault)

theorem Variant.faults_lastWins (instruction : String) (j : Nat) (earlier : List String) (v : Variant) :
    v.faults .lastWins instruction j earlier = (v.faults .strict instruction j earlier).filter (!·.isRepeat) := by
  rw [faults, faults]
  cases NumericType.ofTag v.type with
  | error unknown => rfl
  | ok type => by_cases hv : v.type ∈ earlier <;> simp [hv, BuildFault.isRepeat]

theorem Form.faults_lastWins (instruction : String) (j : Nat) (f : Form) :
    f.faults .lastWins instruction j = (f.faults .strict instruction j).filter (!·.isRepeat) := by
  rw [faults, faults, List.filter_append, Indexed.filter_collect]
  congr 1
  · rw [List.filter_flatMap]
    congr 1
    funext tag
    by_cases htag : tag ∈ OperandKind.tags <;> simp [htag, BuildFault.isRepeat]
  · congr 1
    funext before v
    exact v.faults_lastWins instruction j _

theorem Instruction.faults_lastWins (earlier : List String) (x : Instruction) :
    x.faults .lastWins earlier = (x.faults .strict earlier).filter (!·.isRepeat) := by
  rw [faults, faults, List.filter_append, List.filter_flatMap]
  congr 1
  · by_cases hx : x.name ∈ earlier <;> simp [hx, BuildFault.isRepeat]
  · congr 1
    funext e
    exact e.1.faults_lastWins x.name e.2

/-- The lenient policy finds the faults of the strict one other than repeated types. -/
theorem faults_lastWins (d : Description) : d.faults .lastWins = (d.faults .strict).filter (!·.isRepeat) := by
  rw [faults, faults, List.filter_append, List.filter_append, Indexed.filter_collect, Indexed.filter_collect]
  congr 1
  · congr 1
    · by_cases hcount : Tables.maxInstructions < d.instructions.length <;> simp [hcount, BuildFault.isRepeat]
    · congr 1
      funext before r
      by_cases hr : r.name ∈ before.map (·.name) <;> simp [Register.faults, hr, BuildFault.isRepeat]
  · congr 1
    funext before x
    exact x.faults_lastWins _

/-! ### The first type that repeats -/

/-- No two variants of the form have the same type. -/
def Form.HasDistinctTypes (f : Form) : Prop :=
  (f.variants.map (·.type)).Nodup

/-- The variant is the first one of the form whose type an earlier one has. -/
def Form.FirstRepeat (f : Form) (v : Variant) : Prop :=
  ∃ vs vs', f.variants = vs ++ v :: vs' ∧ v.type ∈ vs.map (·.type) ∧ (vs.map (·.type)).Nodup

/-- The variant of form `j` of the instruction is the first one of the description whose type an earlier variant of its
form has. -/
def FirstRepeat (d : Description) (x : Instruction) (j : Nat) (v : Variant) : Prop :=
  ∃ xs xs' fs f fs', d.instructions = xs ++ x :: xs' ∧ x.forms = fs ++ f :: fs' ∧ fs.length = j ∧ f.FirstRepeat v ∧
    (∀ g ∈ fs, g.HasDistinctTypes) ∧ ∀ y ∈ xs, ∀ g ∈ y.forms, g.HasDistinctTypes

variable {instruction : String} {j : Nat} {type : NumericType}

theorem Form.hasDistinctTypes_of_faults {f : Form} (h : f.faults .strict instruction j = []) : f.HasDistinctTypes :=
  (Form.faults_eq_nil_iff.1 h).distinct rfl

theorem Form.firstRepeat_of_head? {name : String} {k : Nat} {f : Form}
    (h : (f.faults .strict name k).head? = some (.duplicateVariant instruction j type)) :
    ∃ v, f.FirstRepeat v ∧ NumericType.ofTag v.type = .ok type ∧ name = instruction ∧ k = j := by
  have hparams : BuildFault.duplicateVariant instruction j type ∉ f.params.flatMap fun tag =>
      if tag ∈ OperandKind.tags then [] else [BuildFault.unknownTag name k ⟨.operandKind, tag⟩] := by
    rw [List.mem_flatMap]
    rintro ⟨tag, -, htag⟩
    by_cases hknown : tag ∈ OperandKind.tags <;> simp [hknown] at htag
  obtain ⟨-, h⟩ := head?_append_of_not_mem h hparams
  obtain ⟨vs, v, vs', hvariants, hv, hvs⟩ := Indexed.exists_of_head?_collect h
  -- the variants before make a form without faults
  have hdistinct : (Form.mk f.opcode f.encodeType [] vs).HasDistinctTypes := hasDistinctTypes_of_faults hvs
  rw [Variant.faults] at hv
  cases htype : NumericType.ofTag v.type with
  | error unknown =>
    rw [htype] at hv
    cases hv
  | ok type =>
    simp only [htype, true_and] at hv
    split at hv
    · rename_i hrepeats
      cases hv
      exact ⟨v, ⟨vs, vs', hvariants, hrepeats, hdistinct⟩, htype, rfl, rfl⟩
    · cases hv

/-- If a strict build complains about a repeated type, then about the first one. -/
theorem firstRepeat_of_head? {d : Description}
    (h : (d.faults .strict).head? = some (.duplicateVariant instruction j type)) :
    ∃ x v, d.FirstRepeat x j v ∧ NumericType.ofTag v.type = .ok type ∧ x.name = instruction := by
  rw [faults, List.append_assoc] at h
  obtain ⟨-, h⟩ := head?_append_of_not_mem h (by split <;> simp)
  have hregisters : BuildFault.duplicateVariant instruction j type ∉
      Indexed.collect (fun before => Register.faults (before.map (·.name))) d.registers := by
    rw [Indexed.collect, List.mem_flatMap]
    rintro ⟨⟨r, k⟩, -, hr⟩
    simp only [Register.faults] at hr
    split at hr <;> simp at hr
  obtain ⟨-, h⟩ := head?_append_of_not_mem h hregisters
  obtain ⟨xs, x, xs', hinstructions, hx, hxs⟩ := Indexed.exists_of_head?_collect h
  rw [Instruction.faults] at hx
  obtain ⟨-, hx⟩ := head?_append_of_not_mem hx (by split <;> simp)
  have hpositions := Indexed.flatMap_zipIdx_eq_collect (fun (f : Form) k => f.faults .strict x.name k) x.forms
  have hx := (congrArg List.head? hpositions).symm.trans hx
  obtain ⟨fs, f, fs', hforms, hf, hfs⟩ := Indexed.exists_of_head?_collect hx
  obtain ⟨v, hv, htype, rfl, rfl⟩ := Form.firstRepeat_of_head? hf
  refine ⟨x, v, ⟨xs, xs', fs, f, fs', hinstructions, hforms, rfl, hv, fun g hg => ?_, fun y hy g hg => ?_⟩, htype, rfl⟩
  · obtain ⟨k, hk⟩ := List.mem_iff_getElem?.1 hg
    exact Form.hasDistinctTypes_of_faults (Indexed.collect_eq_nil_iff.1 hfs k g hk)
  · obtain ⟨k, hk⟩ := List.mem_iff_getElem?.1 hy
    have hsound := Instruction.faults_eq_nil_iff.1 (Indexed.collect_eq_nil_iff.1 hxs k y hk)
    exact (hsound.2 g hg).distinct rfl

/-- The strict policy refuses the description at the first type that repeats. -/
def RefusesRepeat (d : Description) : Prop :=
  ∃ x j v type, d.FirstRepeat x j v ∧ NumericType.ofTag v.type = .ok type ∧
    d.build .strict = .error (.malformed (.duplicateVariant x.name j type))

theorem build_eq_error_of_head? {policy : VariantPolicy} {d : Description} {e : BuildFault}
    (h : (d.faults policy).head? = some e) : d.build policy = .error (.malformed e) :=
  build_eq_error_iff.2 ⟨e, (reports_tables policy d).eq_error_iff.2 h, rfl⟩

/-- The first fault for the strict policy is also the first one for the lenient policy, or a repeated type. -/
theorem refusesRepeat_of_head? {d : Description} {e : BuildFault} (h : (d.faults .strict).head? = some e) :
    (d.faults .lastWins).head? = some e ∨ d.RefusesRepeat := by
  cases he : e.isRepeat with
  | false =>
    obtain ⟨es, hes⟩ := List.head?_eq_some_iff.1 h
    refine .inl ?_
    rw [faults_lastWins, hes, List.filter_cons_of_pos (by rw [he]; rfl)]
    rfl
  | true =>
    cases e with
    | duplicateVariant instruction j type =>
      obtain ⟨x, v, hfirst, htype, rfl⟩ := firstRepeat_of_head? h
      exact .inr ⟨x, j, v, type, hfirst, htype, build_eq_error_of_head? h⟩
    | _ => cases he

/-- A strict build succeeds, refuses a type that repeats or fails like a lenient one. -/
theorem build_strict_cases (d : Description) :
    (∃ t, d.build .strict = .ok t) ∨ d.RefusesRepeat ∨
      ∃ e, d.build .strict = .error (.malformed e) ∧ d.build .lastWins = .error (.malformed e) := by
  cases hfaults : d.faults .strict with
  | nil =>
    obtain ⟨t, ht⟩ := (reports_tables .strict d).exists_ok_iff.2 hfaults
    exact .inl ⟨t, build_eq_ok_iff.2 (tables_eq_ok_iff.1 ht)⟩
  | cons e es =>
    have hhead : (d.faults .strict).head? = some e := by
      rw [hfaults]
      rfl
    rcases refusesRepeat_of_head? hhead with hlast | hrepeat
    · exact .inr (.inr ⟨e, build_eq_error_of_head? hhead, build_eq_error_of_head? hlast⟩)
    · exact .inr (.inl hrepeat)

theorem build_lastWins_of_strict {d : Description} {t : Tables} (h : d.build .strict = .ok t) :
    d.build .lastWins = .ok t := by
  obtain ⟨hd, hwf⟩ := build_eq_ok_iff.1 h
  refine build_eq_ok_iff.2 ⟨hd, hwf.aligned, hwf.registers, hwf.instructions, fun fs _ f _ hstrict => ?_⟩
  cases hstrict

end Description

/-! ### Without what is shadowed -/

namespace Description

/-- The form without the variants that a later one for the same type shadows. -/
def Form.withoutShadowed (f : Form) : Form :=
  { f with variants := lastOfEach (·.type) f.variants }

def withoutShadowed (d : Description) : Description :=
  { d with instructions := d.instructions.map fun x => { x with forms := x.forms.map (·.withoutShadowed) } }

end Description

namespace Tables

variable {policy : VariantPolicy} {t : Tables}

/-- The form without the variants that a later one for the same type shadows. -/
def Form.withoutShadowed (f : Form) : Form :=
  { f with variants := lastOfEach (·.type) f.variants }

def withoutShadowed (t : Tables) : Tables :=
  { t with instructions := t.instructions.map fun fs => fs.map (·.withoutShadowed) }

theorem Form.description_withoutShadowed (f : Form) :
    f.withoutShadowed.description = f.description.withoutShadowed := by
  have hvariants := lastOfEach_map VariantEntry.description NumericType.tag_injective
    (fun v : VariantEntry => (rfl : v.description.type = v.type.tag)) f.variants
  rw [Description.Form.withoutShadowed, description, description, hvariants]
  rfl

theorem description_withoutShadowed (t : Tables) : t.withoutShadowed.description = t.description.withoutShadowed := by
  rw [Description.withoutShadowed, description, description, withoutShadowed, List.zipWith_map_right, List.map_zipWith]
  simp only [List.map_map, Function.comp_def, Form.description_withoutShadowed]

theorem Form.isConsistent_withoutShadowed {f : Form} (h : f.isConsistent) : f.withoutShadowed.isConsistent := by
  have hempty : (lastOfEach (·.type) f.variants).isEmpty = f.variants.isEmpty := by
    rw [Bool.eq_iff_iff, List.isEmpty_iff, List.isEmpty_iff, lastOfEach_eq_nil_iff]
  rw [isConsistent_iff] at h ⊢
  rw [withoutShadowed, h, hempty]

/-- Without the variants that are shadowed the strict policy has nothing to refuse. -/
theorem WellFormed.withoutShadowed (h : t.WellFormed policy) : t.withoutShadowed.WellFormed .strict where
  aligned := by
    refine ⟨by rw [Tables.withoutShadowed, List.length_map]; exact h.aligned.length_eq, h.aligned.index_eq, ?_⟩
    intro fs hfs f hf
    obtain ⟨gs, hgs, rfl⟩ := List.mem_map.1 hfs
    obtain ⟨g, hg, rfl⟩ := List.mem_map.1 hf
    exact Form.isConsistent_withoutShadowed (h.aligned.consistent gs hgs g hg)
  registers := h.registers
  instructions := h.instructions
  variants := by
    intro fs hfs f hf _
    obtain ⟨gs, hgs, rfl⟩ := List.mem_map.1 hfs
    obtain ⟨g, hg, rfl⟩ := List.mem_map.1 hf
    exact nodup_lastOfEach g.variants

/-- The forms encode alike: only their variants may differ, and not in the opcode that holds for a type. -/
structure Form.EncodesAs (f g : Form) : Prop where
  opcode : f.opcode = g.opcode
  flags : f.flags = g.flags
  params : f.params = g.params
  opcodeFor : ∀ type, f.opcodeFor type = g.opcodeFor type

theorem Form.encodesAs_withoutShadowed (f : Form) : f.withoutShadowed.EncodesAs f where
  opcode := rfl
  flags := rfl
  params := rfl
  opcodeFor type := by
    rw [opcodeFor, opcodeFor, chosenOpcode, chosenOpcode, withoutShadowed, find?_reverse_lastOfEach]

end Tables

namespace Description

/-- What the strict policy builds, the lenient one builds too.  What the lenient one builds, or complains about, so does
the strict one, or it refuses the first type that repeats.  Without the variants that are shadowed, what the lenient
policy builds is built by the strict one, to tables with the same registers, the same index and forms that encode
alike. -/
theorem build_policies (d : Description) :
    (∀ t, d.build .strict = .ok t → d.build .lastWins = .ok t) ∧
    (∀ t, d.build .lastWins = .ok t → d.build .strict = .ok t ∨ d.RefusesRepeat) ∧
    (∀ e, d.build .lastWins = .error e → d.build .strict = .error e ∨ d.RefusesRepeat) ∧
    ∀ t, d.build .lastWins = .ok t → ∃ t', d.withoutShadowed.build .strict = .ok t' ∧
      t'.registers = t.registers ∧ t'.index = t.index ∧
      List.Forall₂ (List.Forall₂ Tables.Form.EncodesAs) t'.instructions t.instructions := by
  refine ⟨fun t => build_lastWins_of_strict, ?_, ?_, ?_⟩
  · intro t h
    rcases build_strict_cases d with ⟨t', h'⟩ | hrepeat | ⟨e, -, he⟩
    · have hsame := build_lastWins_of_strict h'
      rw [h] at hsame
      cases hsame
      exact .inl h'
    · exact .inr hrepeat
    · rw [h] at he
      cases he
  · intro e h
    rcases build_strict_cases d with ⟨t', h'⟩ | hrepeat | ⟨e', hstrict, he⟩
    · have hsame := build_lastWins_of_strict h'
      rw [h] at hsame
      cases hsame
    · exact .inr hrepeat
    · rw [h] at he
      cases he
      exact .inl hstrict
  · intro t h
    obtain ⟨rfl, hwf⟩ := build_eq_ok_iff.1 h
    have hbuild := build_eq_ok_iff.2 ⟨Tables.description_withoutShadowed t, hwf.withoutShadowed⟩
    refine ⟨t.withoutShadowed, hbuild, rfl, rfl, ?_⟩
    rw [Tables.withoutShadowed, List.forall₂_map_left_iff]
    refine List.forall₂_same.2 fun fs _ => ?_
    rw [List.forall₂_map_left_iff]
    exact List.forall₂_same.2 fun f _ => f.encodesAs_withoutShadowed

/-- A type that has a byte first and a symbol last, once in a form that can be built and once before an unknown tag. -/
theorem build_policies_symbol_last :
    let push : Form := ⟨.literal 1 "1", true, ["iT"], [⟨"i8", .literal 2 "2"⟩, ⟨"i16", .literal 3 "3"⟩,
      ⟨"i8", .symbol "OP_PUSH"⟩]⟩
    let d : Description := { registers := [⟨"r0", 5⟩], instructions := [⟨"nop", []⟩, ⟨"push", [push]⟩] }
    let d' : Description := { registers := [], instructions := [⟨"push", [push, ⟨.literal 4 "4", true, ["xReg"], []⟩]⟩] }
    ∃ t t', d.build .lastWins = .ok t ∧ d.RefusesRepeat ∧ d.withoutShadowed.build .strict = .ok t' ∧
      t'.registers = t.registers ∧ t'.index = t.index ∧
      List.Forall₂ (List.Forall₂ Tables.Form.EncodesAs) t'.instructions t.instructions ∧
      d'.build .lastWins = .error (.malformed (.unknownTag "push" 1 ⟨.operandKind, "xReg"⟩)) ∧ d'.RefusesRepeat := by
  intro push d d'
  let t : Tables :=
    { registers := [⟨"r0", 5⟩], index := [⟨"nop", 0⟩, ⟨"push", 1⟩],
      instructions := [[], [⟨.literal 1 "1", ⟨true, true⟩, [.intType], [⟨.i8, .literal 2 "2"⟩, ⟨.i16, .literal 3 "3"⟩,
        ⟨.i8, .symbol "OP_PUSH"⟩]⟩]] }
  have hbuild : d.build .lastWins = .ok t := rfl
  have hfault : d'.build .lastWins = .error (.malformed (.unknownTag "push" 1 ⟨.operandKind, "xReg"⟩)) := rfl
  obtain ⟨-, hok, -, hwithout⟩ := build_policies d
  obtain ⟨-, -, herror, -⟩ := build_policies d'
  have hrefused : d.RefusesRepeat := (hok t hbuild).resolve_left nofun
  have hrefused' : d'.RefusesRepeat := (herror _ hfault).resolve_left nofun
  obtain ⟨t', ht', hregisters, hindex, hforms⟩ := hwithout t hbuild
  exact ⟨t, t', hbuild, hrefused, ht', hregisters, hindex, hforms, hfault, hrefused'⟩

end Description

end OpcodeTables
