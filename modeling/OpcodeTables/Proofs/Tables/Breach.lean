import OpcodeTables.Proofs.Tables.Alignment
import OpcodeTables.Proofs.Tables.Image
import OpcodeTables.Proofs.Tables.Json

/-!
# The first breach

How tables that do not belong together are refused: the lengths come first, then the first entry of the index that is
not at its position, then the first form, instruction by instruction, with flags that disagree with its variants
(`Tables.FirstBreach`).  Verifying reports this breach and no other, and so does whatever reads or writes the tables
(`Tables.verify_reports`).
-/

namespace OpcodeTables

section

variable {α β : Type} {l : List α} {b : β}

/-- The first element for which something is found is known by its position. -/
theorem findSome?_eq_some_iff_getElem? {f : α → Option β} :
    l.findSome? f = some b ↔
      ∃ (k : Nat) (a : α), l[k]? = some a ∧ f a = some b ∧ ∀ m < k, ∀ a', l[m]? = some a' → f a' = none := by
  rw [List.findSome?_eq_some_iff]
  constructor
  · rintro ⟨before, a, after, rfl, ha, hbefore⟩
    refine ⟨before.length, a, by simp, ha, fun m hm a' ha' => hbefore a' ?_⟩
    rw [List.getElem?_append_left hm] at ha'
    exact List.mem_of_getElem? ha'
  · rintro ⟨k, a, hk, ha, hfirst⟩
    obtain ⟨hlt, rfl⟩ := List.getElem?_eq_some_iff.1 hk
    refine ⟨l.take k, l[k], l.drop (k + 1), ?_, ha, fun a' ha' => ?_⟩
    · rw [List.getElem_cons_drop, List.take_append_drop]
    · obtain ⟨m, hm, rfl⟩ := List.mem_take_iff_getElem.1 ha'
      exact hfirst m (by omega) _ (List.getElem?_eq_getElem (by omega))

theorem findSome?_zipIdx_eq_some_iff {f : α × Nat → Option β} :
    l.zipIdx.findSome? f = some b ↔
      ∃ (k : Nat) (a : α), l[k]? = some a ∧ f (a, k) = some b ∧ ∀ m < k, ∀ a', l[m]? = some a' → f (a', m) = none := by
  have hget : ∀ (k : Nat) (e : α × Nat), l.zipIdx[k]? = some e ↔ ∃ a, l[k]? = some a ∧ (a, k) = e := by
    intro k e
    rw [List.getElem?_zipIdx, Option.map_eq_some_iff, Nat.zero_add]
  rw [findSome?_eq_some_iff_getElem?]
  constructor
  · rintro ⟨k, e, hk, he, hfirst⟩
    obtain ⟨a, ha, rfl⟩ := (hget k e).1 hk
    exact ⟨k, a, ha, he, fun m hm a' ha' => hfirst m hm (a', m) ((hget m _).2 ⟨a', ha', rfl⟩)⟩
  · rintro ⟨k, a, hk, ha, hfirst⟩
    refine ⟨k, (a, k), (hget k _).2 ⟨a, hk, rfl⟩, ha, fun m hm e he => ?_⟩
    obtain ⟨a', ha', rfl⟩ := (hget m e).1 he
    exact hfirst m hm a' ha'

end

namespace Tables

/-- The flag for variants says whether the form has any. -/
def Form.FlagAgrees (f : Form) : Prop :=
  f.flags.typeVariants = true ↔ f.variants ≠ []

theorem Form.isConsistent_iff_flagAgrees {f : Form} : f.isConsistent ↔ f.FlagAgrees := by
  rw [Form.isConsistent_iff, Form.FlagAgrees]
  cases f.flags.typeVariants <;> cases f.variants <;> simp

/-- Every entry of the index has its position. -/
def Placed (t : Tables) : Prop :=
  ∀ (i : Nat) (e : IndexEntry), t.index[i]? = some e → e.index.toNat = i

/-- The first way in which the tables fail to belong together. -/
inductive FirstBreach (t : Tables) : Breach → Prop where
  | lengths (hlength : t.index.length ≠ t.instructions.length) :
      FirstBreach t (.lengths t.index.length t.instructions.length)
  | misplaced {i : Nat} {e : IndexEntry} (hlength : t.index.length = t.instructions.length)
      (he : t.index[i]? = some e) (hwrong : e.index.toNat ≠ i)
      (hfirst : ∀ k < i, ∀ e', t.index[k]? = some e' → e'.index.toNat = k) :
      FirstBreach t (.misplaced e.name i e.index.toNat)
  | inconsistentFlags {i j : Nat} {e : IndexEntry} {f : Form} (hlength : t.index.length = t.instructions.length)
      (hplaced : t.Placed) (he : t.index[i]? = some e) (hf : t.form? i j = some f) (hwrong : ¬ f.FlagAgrees)
      (hfirst : ∀ i' j' f', i' < i ∨ i' = i ∧ j' < j → t.form? i' j' = some f' → f'.FlagAgrees) :
      FirstBreach t (.inconsistentFlags e.name j f.flags)

/-! ### First entries -/

theorem misplaced?_eq_findSome? (i : Nat) (es : List IndexEntry) :
    misplaced? i es = (es.zipIdx i).findSome? fun e =>
      if e.1.index.toNat = e.2 then none else some (.misplaced e.1.name e.2 e.1.index.toNat) := by
  induction es generalizing i with
  | nil => rfl
  | cons e es ih =>
    rw [misplaced?, List.zipIdx_cons, List.findSome?_cons, ih]
    by_cases he : e.index.toNat = i <;> simp [he]

theorem misplaced?_eq_some_iff {es : List IndexEntry} {b : Breach} :
    misplaced? 0 es = some b ↔
      ∃ (i : Nat) (e : IndexEntry), es[i]? = some e ∧ (e.index.toNat ≠ i ∧ b = .misplaced e.name i e.index.toNat) ∧
        ∀ k < i, ∀ e', es[k]? = some e' → e'.index.toNat = k := by
  rw [misplaced?_eq_findSome?, findSome?_zipIdx_eq_some_iff]
  simp only [ite_eq_left_iff, Option.ite_none_left_eq_some, Option.some.injEq, reduceCtorEq, imp_false, not_not,
    eq_comm (b := b)]

theorem inconsistent?_eq_findSome? (instruction : String) (j : Nat) (fs : List Form) :
    inconsistent? instruction j fs = (fs.zipIdx j).findSome? fun f =>
      if f.1.isConsistent then none else some (.inconsistentFlags instruction f.2 f.1.flags) := by
  induction fs generalizing j with
  | nil => rfl
  | cons f fs ih =>
    rw [inconsistent?, List.zipIdx_cons, List.findSome?_cons, ih]
    by_cases hf : f.isConsistent <;> simp [hf]

theorem inconsistent?_eq_some_iff {instruction : String} {fs : List Form} {b : Breach} :
    inconsistent? instruction 0 fs = some b ↔
      ∃ (j : Nat) (f : Form), fs[j]? = some f ∧ (¬ f.FlagAgrees ∧ b = .inconsistentFlags instruction j f.flags) ∧
        ∀ k < j, ∀ f', fs[k]? = some f' → f'.FlagAgrees := by
  rw [inconsistent?_eq_findSome?, findSome?_zipIdx_eq_some_iff]
  simp only [Form.isConsistent_iff_flagAgrees, ite_eq_left_iff, Option.ite_none_left_eq_some, Option.some.injEq,
    reduceCtorEq, imp_false, not_not, eq_comm (b := b)]

/-! ### The breach that is reported -/

/-- With equal lengths every instruction has an entry to report it under. -/
theorem findSome?_inconsistent?_eq_some_iff {t : Tables} (hlength : t.index.length = t.instructions.length)
    {b : Breach} :
    ((t.index.zip t.instructions).findSome? fun e => inconsistent? e.1.name 0 e.2) = some b ↔
      ∃ i j e f, t.index[i]? = some e ∧ t.form? i j = some f ∧ (¬ f.FlagAgrees ∧
        b = .inconsistentFlags e.name j f.flags) ∧
        ∀ i' j' f', i' < i ∨ i' = i ∧ j' < j → t.form? i' j' = some f' → f'.FlagAgrees := by
  have exists_index : ∀ {i : Nat} {fs : List Form}, t.instructions[i]? = some fs → ∃ e, t.index[i]? = some e := by
    intro i fs hfs
    obtain ⟨hi, -⟩ := List.getElem?_eq_some_iff.1 hfs
    exact ⟨_, List.getElem?_eq_getElem (by omega)⟩
  have hform : ∀ i j f, t.form? i j = some f ↔ ∃ fs, t.instructions[i]? = some fs ∧ fs[j]? = some f :=
    fun i j f => Option.bind_eq_some_iff
  rw [findSome?_eq_some_iff_getElem?]
  simp only [List.getElem?_zip_eq_some, Prod.exists, Prod.forall, inconsistent?_eq_some_iff,
    inconsistent?_eq_none_iff, Form.isConsistent_iff_flagAgrees, hform]
  constructor
  · rintro ⟨i, e, fs, ⟨he, hfs⟩, ⟨j, f, hf, hwrong, hforms⟩, hinstructions⟩
    refine ⟨i, j, e, f, he, ⟨fs, hfs, hf⟩, hwrong, ?_⟩
    rintro i' j' f' (hi | ⟨rfl, hj⟩) ⟨fs', hfs', hf'⟩
    · obtain ⟨e', he'⟩ := exists_index hfs'
      exact hinstructions i' hi e' fs' ⟨he', hfs'⟩ f' (List.mem_of_getElem? hf')
    · rw [hfs, Option.some.injEq] at hfs'
      exact hforms j' hj f' (hfs' ▸ hf')
  · rintro ⟨i, j, e, f, he, ⟨fs, hfs, hf⟩, hwrong, hfirst⟩
    refine ⟨i, e, fs, ⟨he, hfs⟩, ⟨j, f, hf, hwrong, fun k hk f' hf' => ?_⟩, fun i' hi e' fs' he' f' hf' => ?_⟩
    · exact hfirst i k f' (.inr ⟨rfl, hk⟩) ⟨fs, hfs, hf'⟩
    · obtain ⟨j', hj'⟩ := List.mem_iff_getElem?.1 hf'
      exact hfirst i' j' f' (.inl hi) ⟨fs', he'.2, hj'⟩

theorem breach?_eq_some_iff {t : Tables} {b : Breach} : t.breach? = some b ↔ t.FirstBreach b := by
  rw [breach?]
  split
  · rename_i hlength
    constructor
    · rintro ⟨⟩
      exact .lengths hlength
    · intro h
      cases h with
      | lengths => rfl
      | misplaced heq => exact absurd heq hlength
      | inconsistentFlags heq => exact absurd heq hlength
  · rename_i hlength
    have hlength : t.index.length = t.instructions.length := not_not.1 hlength
    rw [Option.or_eq_some_iff, misplaced?_eq_some_iff, findSome?_inconsistent?_eq_some_iff hlength,
      misplaced?_eq_none_iff]
    simp only [Nat.zero_add]
    constructor
    · rintro (⟨i, e, he, ⟨hwrong, rfl⟩, hfirst⟩ | ⟨hplaced, i, j, e, f, he, hf, ⟨hwrong, rfl⟩, hfirst⟩)
      · exact .misplaced hlength he hwrong hfirst
      · exact .inconsistentFlags hlength hplaced he hf hwrong hfirst
    · intro h
      cases h with
      | lengths hne => exact absurd hlength hne
      | misplaced _ he hwrong hfirst => exact .inl ⟨_, _, he, ⟨hwrong, rfl⟩, hfirst⟩
      | inconsistentFlags _ hplaced he hf hwrong hfirst =>
        exact .inr ⟨hplaced, _, _, _, _, he, hf, ⟨hwrong, rfl⟩, hfirst⟩

theorem verify_eq_error_iff {t : Tables} {b : Breach} : t.verify = .error b ↔ t.FirstBreach b := by
  rw [← breach?_eq_some_iff, verify]
  cases t.breach? <;> simp

theorem verified_eq_breach_iff {ε : Type} {t : Tables} {b : Breach} :
    verified (.ok t : Except ε Tables) = .error (.breach b) ↔ t.FirstBreach b := by
  rw [← verify_eq_error_iff, verified]
  cases t.verify <;> simp

theorem emit_eq_error_iff {t : Tables} {target : Target} {namespaceName : String} {b : Breach} :
    t.emit target namespaceName = .error b ↔ t.FirstBreach b := by
  rw [← verify_eq_error_iff, emit]
  cases t.verify <;> simp

theorem ofImage_eq_breach_iff {t : Tables} {bytes rest : List UInt8} (h : codec.decode bytes = .ok (t, rest))
    {b : Breach} : ofImage bytes = .error (.breach b) ↔ t.FirstBreach b := by
  rw [ofImage, h]
  exact verified_eq_breach_iff

theorem ofJson_eq_breach_iff {t : Tables} {bytes : List UInt8} (h : reader.readAll bytes = .ok t) {b : Breach} :
    ofJson bytes = .error (.breach b) ↔ t.FirstBreach b := by
  rw [ofJson, h]
  exact verified_eq_breach_iff

theorem verify_eq_ok_iff_placed {t : Tables} :
    t.verify = .ok () ↔
      t.index.length = t.instructions.length ∧ t.Placed ∧ ∀ i j f, t.form? i j = some f → f.FlagAgrees := by
  rw [verify_eq_ok_iff]
  constructor
  · intro h
    refine ⟨h.length_eq, h.index_eq, fun i j f hf => ?_⟩
    obtain ⟨fs, hfs, hf⟩ := Option.bind_eq_some_iff.1 hf
    exact Form.isConsistent_iff_flagAgrees.1
      (h.consistent fs (List.mem_of_getElem? hfs) f (List.mem_of_getElem? hf))
  · rintro ⟨hlength, hplaced, hforms⟩
    refine ⟨hlength, hplaced, fun fs hfs f hf => Form.isConsistent_iff_flagAgrees.2 ?_⟩
    obtain ⟨i, hi⟩ := List.mem_iff_getElem?.1 hfs
    obtain ⟨j, hj⟩ := List.mem_iff_getElem?.1 hf
    exact hforms i j f (Option.bind_eq_some_iff.2 ⟨fs, hi, hj⟩)

/-- Tables are verified exactly if the index and the forms are equally many, the entries of the index have their
positions and the flags of the forms say whether they have variants; then there are at most 256 instructions.  If not,
the first breach is reported: by verifying, by reading the tables back from bytes of either format, and by writing them
in any format with any namespace. -/
theorem verify_reports (t : Tables) :
    (t.verify = .ok () ↔
      t.index.length = t.instructions.length ∧ t.Placed ∧ ∀ i j f, t.form? i j = some f → f.FlagAgrees) ∧
    (t.verify = .ok () → t.index.length ≤ 256) ∧
    (∀ b, t.verify = .error b ↔ t.FirstBreach b) ∧
    (∀ bytes rest, codec.decode bytes = .ok (t, rest) →
      ∀ b, ofImage bytes = .error (.breach b) ↔ t.FirstBreach b) ∧
    (∀ bytes, reader.readAll bytes = .ok t → ∀ b, ofJson bytes = .error (.breach b) ↔ t.FirstBreach b) ∧
    ∀ target namespaceName, (∀ b, t.emit target namespaceName = .error b ↔ t.FirstBreach b) ∧
      ((∃ bytes, t.emit target namespaceName = .ok bytes) ↔ t.verify = .ok ()) := by
  refine ⟨verify_eq_ok_iff_placed, fun h => (verify_eq_ok_iff.1 h).length_index_le, fun b => verify_eq_error_iff,
    fun bytes rest h b => ofImage_eq_breach_iff h, fun bytes h b => ofJson_eq_breach_iff h, fun target n => ?_⟩
  refine ⟨fun b => emit_eq_error_iff, ?_⟩
  simp only [emit_eq_ok_iff, exists_and_left, exists_eq, and_true]

/-- Two forms whose flags promise variants, in the second instruction. -/
theorem verify_reports_second_form :
    let plain : Form := ⟨.symbol "A", ⟨true, false⟩, [], []⟩
    let wrong : Form := ⟨.literal 7 "7", ⟨false, true⟩, [.intReg], []⟩
    let t : Tables := ⟨[], [⟨"nop", 0⟩, ⟨"add", 1⟩], [[plain], [plain, wrong, wrong]]⟩
    let b : Breach := .inconsistentFlags "add" 1 ⟨false, true⟩
    t.verify = .error b ∧ t.FirstBreach b ∧
      (∃ bytes, codec.decode bytes = .ok (t, []) ∧ ofImage bytes = .error (.breach b)) ∧
      (∃ bytes, reader.readAll bytes = .ok t ∧ ofJson bytes = .error (.breach b)) ∧
      t.emit .rust "Asm" = .error b := by
  intro plain wrong t b
  obtain ⟨-, -, hverify, himage, hjson, hemit⟩ := verify_reports t
  have hb : t.verify = .error b := rfl
  have hfirst : t.FirstBreach b := (hverify b).1 hb
  have hfits : t.Fits := by decide
  have hdecode : codec.decode t.image = .ok (t, []) := (exact_codec _ _ _).2 ⟨hfits, (List.append_nil _).symm⟩
  have hread := (t.prints.readAll (show 8 ≤ Json.maxRoom by decide) []).1 (by simp [Json.Blank])
  exact ⟨hb, hfirst, ⟨_, hdecode, (himage _ _ hdecode b).2 hfirst⟩, ⟨_, hread, (hjson _ hread b).2 hfirst⟩,
    ((hemit .rust "Asm").1 b).2 hfirst⟩

end Tables

end OpcodeTables
