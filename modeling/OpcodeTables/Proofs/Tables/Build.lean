import OpcodeTables.Checks
import OpcodeTables.Proofs.Tables.Alignment
import OpcodeTables.Tables.Build

/-!
# Tables and the description they are built from

Tables can be read back as a description (`Tables.description`).  Each step of building gives exactly those entries
that read back as what it was given, with new names, consistent flags and the types that the policy allows
(`registerEntries_eq_ok_iff`, `variantEntries_eq_ok_iff`, `formOf_eq_ok_iff`, `instructionForms_eq_ok_iff`).  So tables
are built from a description exactly if they read back as this description and are well formed
(`Description.tables_eq_ok_iff`); in particular verifying them never fails (`Description.build_eq_ok_iff`).
-/

namespace OpcodeTables

namespace Tables

/-! ### Reading back -/

def RegisterEntry.description (r : RegisterEntry) : Description.Register :=
  ⟨r.name, r.code⟩

def VariantEntry.description (v : VariantEntry) : Description.Variant :=
  ⟨v.type.tag, v.opcode⟩

def Form.description (f : Form) : Description.Form :=
  { opcode := f.opcode
    encodeType := f.flags.encodeType
    params := f.params.map (·.tag)
    variants := f.variants.map (·.description) }

/-- The description that the tables spell. -/
def description (t : Tables) : Description :=
  { registers := t.registers.map (·.description)
    instructions := t.index.zipWith (fun e fs => ⟨e.name, fs.map (·.description)⟩) t.instructions }

/-- The policy allows the variants of the form: a strict one, if no two of them have the same type. -/
def Form.AllowedBy (policy : VariantPolicy) (f : Form) : Prop :=
  policy = .strict → (f.variants.map (·.type)).Nodup

/-! ### What the steps give -/

theorem registerEntries_eq_ok_iff {seen : List String} {rs : List Description.Register} {es : List RegisterEntry} :
    registerEntries seen rs = .ok es ↔ es.map (·.description) = rs ∧ Fresh seen (es.map (·.name)) := by
  induction rs generalizing seen es with
  | nil =>
    constructor
    · intro h
      cases h
      exact ⟨rfl, fresh_nil⟩
    · rintro ⟨h, -⟩
      rw [List.map_eq_nil_iff.1 h]
      rfl
  | cons r rs ih =>
    rw [registerEntries]
    constructor
    · intro h
      split at h
      · cases h
      · rename_i hnew
        obtain ⟨es', hes, rfl⟩ := map_eq_ok_iff.1 h
        obtain ⟨rfl, hfresh⟩ := ih.1 hes
        exact ⟨rfl, fresh_cons.2 ⟨hnew, hfresh⟩⟩
    · rintro ⟨h, hfresh⟩
      obtain ⟨e, es', rfl, rfl, rfl⟩ := List.map_eq_cons_iff.1 h
      obtain ⟨hnew, hfresh⟩ := fresh_cons.1 hfresh
      have hnew : e.description.name ∉ seen := hnew
      have hes : registerEntries (e.description.name :: seen) (es'.map (·.description)) = .ok es' :=
        ih.2 ⟨rfl, hfresh⟩
      rw [if_neg hnew, hes]
      rfl

theorem variantEntries_eq_ok_iff {policy : VariantPolicy} {instruction : String} {j : Nat} {seen : List NumericType}
    {vs : List Description.Variant} {es : List VariantEntry} :
    variantEntries policy instruction j seen vs = .ok es ↔
      es.map (·.description) = vs ∧ (policy = .strict → Fresh seen (es.map (·.type))) := by
  induction vs generalizing seen es with
  | nil =>
    constructor
    · intro h
      cases h
      exact ⟨rfl, fun _ => fresh_nil⟩
    · rintro ⟨h, -⟩
      rw [List.map_eq_nil_iff.1 h]
      rfl
  | cons v vs ih =>
    rw [variantEntries]
    constructor
    · intro h
      split at h
      · cases h
      rename_i type htype
      split at h
      · cases h
      rename_i hnew
      obtain ⟨es', hes, rfl⟩ := map_eq_ok_iff.1 h
      obtain ⟨rfl, hfresh⟩ := ih.1 hes
      refine ⟨?_, fun hp => fresh_cons.2 ⟨fun hs => hnew ⟨hp, hs⟩, hfresh hp⟩⟩
      rw [List.map_cons, VariantEntry.description, ← NumericType.ofTag_eq_ok_iff.1 htype]
    · rintro ⟨h, hfresh⟩
      obtain ⟨e, es', rfl, rfl, rfl⟩ := List.map_eq_cons_iff.1 h
      have htype : NumericType.ofTag e.description.type = .ok e.type := NumericType.ofTag_eq_ok_iff.2 rfl
      have hnew : ¬ (policy = .strict ∧ e.type ∈ seen) := fun ⟨hp, hs⟩ => (fresh_cons.1 (hfresh hp)).1 hs
      have hes := ih.2 ⟨rfl, fun hp => (fresh_cons.1 (hfresh hp)).2⟩
      simp only [htype, if_neg hnew, hes]
      rfl

theorem kinds_eq_ok_iff {instruction : String} {j : Nat} {tags : List String} {ks : List OperandKind} :
    kinds instruction j tags = .ok ks ↔ ks.map (·.tag) = tags := by
  have hstep : ∀ (_ : Nat) (tag : String) (k : OperandKind),
      (OperandKind.ofTag tag).mapError (BuildFault.unknownTag instruction j) = .ok k ↔ k.tag = tag ∧ True := by
    intro _ tag k
    rw [mapError_eq_ok_iff, OperandKind.ofTag_eq_ok_iff, and_true, eq_comm]
  rw [kinds, Indexed.traverse_eq_ok_iff hstep]
  simp

theorem formOf_eq_ok_iff {policy : VariantPolicy} {instruction : String} {j : Nat} {f : Description.Form} {g : Form} :
    formOf policy instruction j f = .ok g ↔ g.description = f ∧ g.isConsistent ∧ g.AllowedBy policy := by
  constructor
  · intro h
    obtain ⟨ks, hks, h⟩ := bind_eq_ok_iff.1 h
    obtain ⟨es, hes, h⟩ := bind_eq_ok_iff.1 h
    cases h
    obtain ⟨hdescription, hfresh⟩ := variantEntries_eq_ok_iff.1 hes
    refine ⟨?_, ?_, fun hp => (hfresh hp).1⟩
    · rw [Form.description, hdescription, kinds_eq_ok_iff.1 hks]
    · rw [Form.isConsistent_iff, ← hdescription, List.isEmpty_map]
  · rintro ⟨rfl, hconsistent, hallowed⟩
    have hks : kinds instruction j g.description.params = .ok g.params := kinds_eq_ok_iff.2 rfl
    have hes : variantEntries policy instruction j [] g.description.variants = .ok g.variants :=
      variantEntries_eq_ok_iff.2 ⟨rfl, fun hp => fresh_iff_nodup.2 (hallowed hp)⟩
    have hflags : g.flags = ⟨g.flags.encodeType, !g.description.variants.isEmpty⟩ := by
      rw [Form.description, List.isEmpty_map, ← Form.isConsistent_iff.1 hconsistent]
    refine bind_eq_ok_iff.2 ⟨_, hks, bind_eq_ok_iff.2 ⟨_, hes, ?_⟩⟩
    rw [Form.description] at hflags ⊢
    rw [← hflags]
    rfl

/-- The forms are consistent, and their variants are allowed. -/
def Form.Kept (policy : VariantPolicy) (f : Form) : Prop :=
  f.isConsistent ∧ f.AllowedBy policy

theorem forms_eq_ok_iff {policy : VariantPolicy} {instruction : String} {fs : List Description.Form} {gs : List Form} :
    Indexed.traverse (formOf policy instruction) 0 fs = .ok gs ↔
      gs.map (·.description) = fs ∧ ∀ g ∈ gs, g.Kept policy :=
  Indexed.traverse_eq_ok_iff fun _ _ _ => formOf_eq_ok_iff

theorem instructionForms_eq_ok_iff {policy : VariantPolicy} {seen : List String} {xs : List Description.Instruction}
    {fss : List (List Form)} :
    instructionForms policy seen xs = .ok fss ↔
      fss.map (·.map (·.description)) = xs.map (·.forms) ∧ Fresh seen (xs.map (·.name)) ∧
        ∀ fs ∈ fss, ∀ f ∈ fs, f.Kept policy := by
  induction xs generalizing seen fss with
  | nil =>
    constructor
    · intro h
      cases h
      exact ⟨rfl, fresh_nil, by simp⟩
    · rintro ⟨h, -⟩
      rw [List.map_eq_nil_iff.1 h]
      rfl
  | cons x xs ih =>
    rw [instructionForms, List.map_cons, List.map_cons, fresh_cons]
    constructor
    · intro h
      split at h
      · cases h
      rename_i hnew
      split at h
      · cases h
      rename_i fs hfs
      obtain ⟨fss', hfss, rfl⟩ := map_eq_ok_iff.1 h
      obtain ⟨hforms, hkept⟩ := forms_eq_ok_iff.1 hfs
      obtain ⟨hrest, hfresh, hkepts⟩ := ih.1 hfss
      refine ⟨?_, ⟨hnew, hfresh⟩, List.forall_mem_cons.2 ⟨hkept, hkepts⟩⟩
      rw [List.map_cons, hforms, hrest]
    · rintro ⟨h, ⟨hnew, hfresh⟩, hkept⟩
      obtain ⟨fs, fss', rfl, hforms, hrest⟩ := List.map_eq_cons_iff.1 h
      obtain ⟨hkept, hkepts⟩ := List.forall_mem_cons.1 hkept
      have hfs : Indexed.traverse (formOf policy x.name) 0 x.forms = .ok fs := forms_eq_ok_iff.2 ⟨hforms, hkept⟩
      have hfss : instructionForms policy (x.name :: seen) xs = .ok fss' := ih.2 ⟨hrest, hfresh, hkepts⟩
      simp only [if_neg hnew, hfs, hfss]
      rfl

theorem map_name_indexEntries (i : Nat) (xs : List Description.Instruction) :
    (indexEntries i xs).map (·.name) = xs.map (·.name) := by
  induction xs generalizing i with
  | nil => rfl
  | cons x xs ih => rw [indexEntries, List.map_cons, List.map_cons, ih]

/-- As long as positions are bytes, the index is the list of entries with the names and their positions. -/
theorem indexEntries_eq_iff {i : Nat} {xs : List Description.Instruction} {es : List IndexEntry}
    (hbytes : i + xs.length ≤ maxInstructions) :
    indexEntries i xs = es ↔
      es.map (·.name) = xs.map (·.name) ∧ ∀ (k : Nat) (e : IndexEntry), es[k]? = some e → e.index.toNat = i + k := by
  rw [maxInstructions] at hbytes
  induction xs generalizing i es with
  | nil =>
    constructor
    · rintro rfl
      exact ⟨rfl, by simp [indexEntries]⟩
    · rintro ⟨h, -⟩
      rw [List.map_eq_nil_iff.1 h]
      rfl
  | cons x xs ih =>
    rw [List.length_cons] at hbytes
    have hi : (UInt8.ofNat i).toNat = i := by
      rw [UInt8.toNat_ofNat']
      omega
    have ih' := @ih (i + 1)
    constructor
    · rintro rfl
      obtain ⟨-, hrest⟩ := (ih' (by omega)).1 rfl
      refine ⟨map_name_indexEntries i _, fun k e he => ?_⟩
      cases k with
      | zero =>
        cases he
        exact hi
      | succ k =>
        have := hrest k e he
        omega
    · rintro ⟨h, hindex⟩
      obtain ⟨e, es', rfl, hname, hnames⟩ := List.map_eq_cons_iff.1 h
      have hname : e.name = x.name := hname
      have he : e.index.toNat = i := hindex 0 e rfl
      have hrest : indexEntries (i + 1) xs = es' := by
        refine (ih' (by omega)).2 ⟨hnames, fun k e' he' => ?_⟩
        have := hindex (k + 1) e' he'
        omega
      rw [indexEntries, hrest, ← hname, ← he, UInt8.ofNat_toNat]

theorem instructions_eq_iff {es : List IndexEntry} {fss : List (List Form)} {xs : List Description.Instruction}
    (hlength : es.length = fss.length) :
    es.zipWith (fun e fs => (⟨e.name, fs.map (·.description)⟩ : Description.Instruction)) fss = xs ↔
      es.map (·.name) = xs.map (·.name) ∧ fss.map (·.map (·.description)) = xs.map (·.forms) := by
  induction es generalizing fss xs with
  | nil =>
    obtain rfl := List.length_eq_zero_iff.1 hlength.symm
    cases xs <;> simp
  | cons e es ih =>
    cases fss with
    | nil => cases hlength
    | cons fs fss =>
      cases xs with
      | nil => simp
      | cons x xs =>
        obtain ⟨name, forms⟩ := x
        have ih := @ih fss xs (by simpa using hlength)
        simp only [List.zipWith_cons_cons, List.map_cons, List.cons.injEq, Description.Instruction.mk.injEq, ih]
        tauto

/-! ### Tables that are built -/

/-- The tables are those of some description. -/
structure WellFormed (policy : VariantPolicy) (t : Tables) : Prop where
  aligned : t.Aligned
  registers : (t.registers.map (·.name)).Nodup
  instructions : (t.index.map (·.name)).Nodup
  variants : ∀ fs ∈ t.instructions, ∀ f ∈ fs, f.AllowedBy policy

end Tables

namespace Description

theorem wellFormed_of_tables {policy : VariantPolicy} {d : Description} {t : Tables} (h : d.tables policy = .ok t) :
    t.description = d ∧ t.WellFormed policy := by
  rw [tables] at h
  split at h
  · cases h
  rename_i hcount
  have hcount : 0 + d.instructions.length ≤ Tables.maxInstructions := by omega
  obtain ⟨es, hes, h⟩ := bind_eq_ok_iff.1 h
  obtain ⟨fss, hfss, h⟩ := bind_eq_ok_iff.1 h
  cases h
  obtain ⟨hregisters, hnames⟩ := Tables.registerEntries_eq_ok_iff.1 hes
  obtain ⟨hforms, hnew, hkept⟩ := Tables.instructionForms_eq_ok_iff.1 hfss
  obtain ⟨hindex, hpositions⟩ := (Tables.indexEntries_eq_iff hcount).1 rfl
  have hlength : (Tables.indexEntries 0 d.instructions).length = fss.length := by
    have hi := congrArg List.length hindex
    have hf := congrArg List.length hforms
    simp only [List.length_map] at hi hf
    omega
  have hdescription : (Tables.mk es (Tables.indexEntries 0 d.instructions) fss).description = d := by
    rw [Tables.description, hregisters, (Tables.instructions_eq_iff hlength).2 ⟨hindex, hforms⟩]
  have haligned : (Tables.mk es (Tables.indexEntries 0 d.instructions) fss).Aligned := by
    refine ⟨hlength, fun k e he => ?_, fun fs hfs f hf => (hkept fs hfs f hf).1⟩
    have := hpositions k e he
    omega
  have hinstructions : ((Tables.indexEntries 0 d.instructions).map (·.name)).Nodup := by
    rw [hindex]
    exact hnew.1
  exact ⟨hdescription, haligned, hnames.1, hinstructions, fun fs hfs f hf => (hkept fs hfs f hf).2⟩

theorem tables_description {policy : VariantPolicy} {t : Tables} (h : t.WellFormed policy) :
    t.description.tables policy = .ok t := by
  have hcount : t.description.instructions.length ≤ Tables.maxInstructions := by
    rw [Tables.description, List.length_zipWith, Tables.maxInstructions]
    have := h.aligned.length_index_le
    omega
  obtain ⟨hindex, hforms⟩ := (Tables.instructions_eq_iff h.aligned.length_eq).1 rfl
  have hregisters : Tables.registerEntries [] t.description.registers = .ok t.registers :=
    Tables.registerEntries_eq_ok_iff.2 ⟨rfl, fresh_iff_nodup.2 h.registers⟩
  have hinstructions : Tables.instructionForms policy [] t.description.instructions = .ok t.instructions := by
    refine Tables.instructionForms_eq_ok_iff.2 ⟨hforms, ?_, fun fs hfs f hf => ?_⟩
    · have hnames : t.description.instructions.map (·.name) = t.index.map (·.name) := hindex.symm
      rw [hnames]
      exact fresh_iff_nodup.2 h.instructions
    · exact ⟨h.aligned.consistent fs hfs f hf, h.variants fs hfs f hf⟩
  have hentries : Tables.indexEntries 0 t.description.instructions = t.index := by
    refine (Tables.indexEntries_eq_iff (by omega)).2 ⟨hindex, fun k e he => ?_⟩
    have := h.aligned.index_eq k e he
    omega
  rw [tables, if_neg (by omega)]
  refine bind_eq_ok_iff.2 ⟨_, hregisters, bind_eq_ok_iff.2 ⟨_, hinstructions, ?_⟩⟩
  rw [hentries]
  rfl

/-- Tables are built from a description exactly if they read back as it and are well formed. -/
theorem tables_eq_ok_iff {policy : VariantPolicy} {d : Description} {t : Tables} :
    d.tables policy = .ok t ↔ t.description = d ∧ t.WellFormed policy := by
  constructor
  · exact wellFormed_of_tables
  · rintro ⟨rfl, h⟩
    exact tables_description h

/-- Verifying what was built never fails. -/
theorem build_eq_ok_iff {policy : VariantPolicy} {d : Description} {t : Tables} :
    d.build policy = .ok t ↔ t.description = d ∧ t.WellFormed policy := by
  rw [build, Tables.verified_eq_ok_iff, tables_eq_ok_iff, Tables.verify_eq_ok_iff]
  exact ⟨fun h => h.1, fun h => ⟨h, h.2.aligned⟩⟩

/-- A build fails exactly where the entries are made, not where they are verified. -/
theorem build_eq_error_iff {policy : VariantPolicy} {d : Description} {e : Tables.DecodeFault Tables.BuildFault} :
    d.build policy = .error e ↔ ∃ fault, d.tables policy = .error fault ∧ e = .malformed fault := by
  cases h : d.tables policy with
  | error fault => simp [build, h, Tables.verified, eq_comm]
  | ok t =>
    have hbuild : d.build policy = .ok t := build_eq_ok_iff.2 (tables_eq_ok_iff.1 h)
    simp [hbuild]

/-- Building loses nothing: tables read back as the description they are built from, with entries that belong together
and names that do not repeat.  All such tables are built from the description they read back as, by a strict policy
just if no form has two variants for one type. -/
theorem build_description_iff :
    (∀ (policy : VariantPolicy) (d : Description) (t : Tables), d.build policy = .ok t →
      t.description = d ∧ t.verify = .ok () ∧ (t.registers.map (·.name)).Nodup ∧ (t.index.map (·.name)).Nodup) ∧
    ∀ t : Tables, t.verify = .ok () → (t.registers.map (·.name)).Nodup → (t.index.map (·.name)).Nodup →
      t.description.build .lastWins = .ok t ∧
      (t.description.build .strict = .ok t ↔
        ∀ fs ∈ t.instructions, ∀ f ∈ fs, (f.variants.map (·.type)).Nodup) := by
  constructor
  · intro policy d t h
    obtain ⟨hd, h⟩ := build_eq_ok_iff.1 h
    exact ⟨hd, Tables.verify_eq_ok_iff.2 h.aligned, h.registers, h.instructions⟩
  · intro t hverify hregisters hinstructions
    have haligned := Tables.verify_eq_ok_iff.1 hverify
    constructor
    · refine build_eq_ok_iff.2 ⟨rfl, haligned, hregisters, hinstructions, fun fs _ f _ hstrict => ?_⟩
      cases hstrict
    · rw [build_eq_ok_iff]
      constructor
      · rintro ⟨-, h⟩ fs hfs f hf
        exact h.variants fs hfs f hf rfl
      · intro hvariants
        exact ⟨rfl, haligned, hregisters, hinstructions, fun fs hfs f hf _ => hvariants fs hfs f hf⟩

/-- Two variants for one type, the second one a symbol, are kept by one policy and refused by the other. -/
theorem build_description_iff_repeated_type :
    let t : Tables :=
      { registers := [⟨"r0", 5⟩, ⟨"sp", 5⟩], index := [⟨"push", 0⟩, ⟨"nop", 1⟩],
        instructions := [[⟨.literal 1 "0x01", ⟨true, true⟩, [.intType, .intNum],
          [⟨.i8, .literal 2 "2"⟩, ⟨.i8, .symbol "OP_PUSH"⟩]⟩], []] }
    let d : Description :=
      { registers := [⟨"r0", 5⟩, ⟨"sp", 5⟩],
        instructions := [⟨"push", [⟨.literal 1 "0x01", true, ["iT", "int"],
          [⟨"i8", .literal 2 "2"⟩, ⟨"i8", .symbol "OP_PUSH"⟩]⟩]⟩, ⟨"nop", []⟩] }
    t.verify = .ok () ∧ d.build .lastWins = .ok t ∧ d.build .strict ≠ .ok t ∧ t.description = d := by
  intro t d
  have hverify : t.verify = .ok () := rfl
  obtain ⟨hlast, hstrict⟩ := build_description_iff.2 t hverify (by decide) (by decide)
  have hbuild : d.build .lastWins = .ok t := hlast
  exact ⟨hverify, hbuild, fun h => absurd (hstrict.1 h) (by decide), (build_description_iff.1 _ d t hbuild).1⟩

end Description

end OpcodeTables
