import Mathlib.Data.Set.Card
import OpcodeTables.Proofs.Signature

/-!
# Shadowed forms

Of the forms of an instruction that have the same operands only the last one is found.  Each insertion at operands that
led somewhere counts one form as shadowed, so the forms counted and the different lists of operands together are as many
as the forms (`Node.shadowed_insertAll`).  As many positions hold a list of operands that comes again
(`ncard_repeated`), and these are the positions that no operands lead to (`Tables.not_isReached_iff`).
-/

namespace OpcodeTables

/-! ### Elements that come again -/

section

variable {α : Type}

/-- The positions of elements that come again later on. -/
def repeated (as : List α) : Set Nat :=
  {j | ∃ a j', as[j]? = some a ∧ j < j' ∧ as[j']? = some a}

theorem zero_mem_repeated_cons {a : α} {as : List α} : 0 ∈ repeated (a :: as) ↔ a ∈ as := by
  rw [List.mem_iff_getElem?]
  constructor
  · rintro ⟨b, j', hb, hj, hb'⟩
    obtain ⟨j', rfl⟩ : ∃ k, j' = k + 1 := ⟨j' - 1, by omega⟩
    cases hb
    exact ⟨j', hb'⟩
  · rintro ⟨j', ha⟩
    exact ⟨a, j' + 1, rfl, by omega, ha⟩

theorem succ_mem_repeated_cons {a : α} {as : List α} {j : Nat} : j + 1 ∈ repeated (a :: as) ↔ j ∈ repeated as := by
  constructor
  · rintro ⟨b, j', hb, hj, hb'⟩
    obtain ⟨j', rfl⟩ : ∃ k, j' = k + 1 := ⟨j' - 1, by omega⟩
    exact ⟨b, j', hb, by omega, hb'⟩
  · rintro ⟨b, j', hb, hj, hb'⟩
    exact ⟨b, j' + 1, hb, by omega, hb'⟩

theorem finite_repeated (as : List α) : (repeated as).Finite := by
  refine (Set.finite_lt_nat as.length).subset ?_
  rintro j ⟨a, j', ha, -, -⟩
  exact (List.getElem?_eq_some_iff.1 ha).1

/-- The positions of elements that come again and the different elements are as many as the positions. -/
theorem ncard_repeated [DecidableEq α] (as : List α) : (repeated as).ncard + as.toFinset.card = as.length := by
  induction as with
  | nil => simp [repeated]
  | cons a as ih =>
    have hshift : ((· + 1) '' repeated as).ncard = (repeated as).ncard :=
      Set.ncard_image_of_injective _ (add_left_injective 1)
    rw [List.length_cons, List.toFinset_cons, ← ih]
    by_cases ha : a ∈ as
    · have hset : repeated (a :: as) = insert 0 ((· + 1) '' repeated as) := by
        ext j
        cases j <;> simp [zero_mem_repeated_cons, succ_mem_repeated_cons, ha]
      rw [hset, Set.ncard_insert_of_notMem (by simp) ((finite_repeated as).image _), hshift,
        Finset.insert_eq_of_mem (List.mem_toFinset.2 ha)]
      omega
    · have hset : repeated (a :: as) = (· + 1) '' repeated as := by
        ext j
        cases j <;> simp [zero_mem_repeated_cons, succ_mem_repeated_cons, ha]
      rw [hset, hshift, Finset.card_insert_of_notMem (by rwa [List.mem_toFinset])]
      omega

/-- The pairs of a position and a number that belongs to what stands there. -/
def places (s : α → Set Nat) (as : List α) : Set (Nat × Nat) :=
  {e | ∃ a, as[e.1]? = some a ∧ e.2 ∈ s a}

theorem places_cons (s : α → Set Nat) (a : α) (as : List α) :
    places s (a :: as) = Prod.mk 0 '' s a ∪ Prod.map (· + 1) id '' places s as := by
  ext ⟨i, j⟩
  cases i <;> simp [places]

variable {s : α → Set Nat} (hs : ∀ a, (s a).Finite)
include hs

theorem finite_places (as : List α) : (places s as).Finite := by
  induction as with
  | nil => simp [places]
  | cons a as ih =>
    rw [places_cons]
    exact ((hs a).image _).union (ih.image _)

/-- The pairs are counted position by position. -/
theorem ncard_places (as : List α) : (places s as).ncard = (as.map fun a => (s a).ncard).sum := by
  induction as with
  | nil => simp [places]
  | cons a as ih =>
    have hdisjoint : Disjoint (Prod.mk 0 '' s a) (Prod.map (· + 1) id '' places s as) := by
      rw [Set.disjoint_left]
      rintro - ⟨j, -, rfl⟩ ⟨e, -, he⟩
      cases he
    have hinjective : Function.Injective (Prod.map (· + 1) id : Nat × Nat → Nat × Nat) :=
      (add_left_injective 1).prodMap Function.injective_id
    rw [places_cons, Set.ncard_union_eq hdisjoint ((hs a).image _) ((finite_places hs as).image _),
      Set.ncard_image_of_injective _ (Prod.mk_right_injective 0), Set.ncard_image_of_injective _ hinjective, ih,
      List.map_cons, List.sum_cons]

end

/-! ### Insertions at operands that lead somewhere -/

namespace Signature.Node

theorem find?_insert_eq_none_iff {n : Node} {ks ks' : List OperandKind} {j : Nat} :
    (n.insert ks j).find? ks' = none ↔ ks' ≠ ks ∧ n.find? ks' = none := by
  rw [find?_insert]
  by_cases hks : ks' = ks <;> simp [hks]

/-- A form is counted as shadowed or has operands that led nowhere before. -/
theorem shadowed_insertAll (n : Node) (j : Nat) (fs : List Tables.Form) :
    (n.insertAll j fs).2 + ((fs.map (·.params)).toFinset.filter (n.find? · = none)).card = fs.length := by
  induction fs generalizing n j with
  | nil => rfl
  | cons f fs ih =>
    have hstep : (n.insertAll j (f :: fs)).2 =
        (if (n.find? f.params).isSome then 1 else 0) + ((n.insert f.params j).insertAll (j + 1) fs).2 := rfl
    have ih := ih (n.insert f.params j) (j + 1)
    simp only [find?_insert_eq_none_iff] at ih
    rw [hstep, List.map_cons, List.toFinset_cons, List.length_cons, ← ih]
    generalize (fs.map (·.params)).toFinset = signatures
    cases hf : n.find? f.params with
    | none =>
      have hset : (Insert.insert f.params signatures).filter (n.find? · = none) =
          Insert.insert f.params (signatures.filter fun ks => ks ≠ f.params ∧ n.find? ks = none) := by
        ext ks
        by_cases hks : ks = f.params <;> simp [hks, hf]
      rw [hset, Finset.card_insert_of_notMem (by simp)]
      simp only [Option.isSome_none, Bool.false_eq_true, if_false]
      omega
    | some i =>
      have hset : (Insert.insert f.params signatures).filter (n.find? · = none) =
          signatures.filter fun ks => ks ≠ f.params ∧ n.find? ks = none := by
        ext ks
        by_cases hks : ks = f.params <;> simp [hks, hf]
      rw [hset]
      simp only [Option.isSome_some, if_true]
      omega

end Signature.Node

namespace Tables

variable {t : Tables} {i j : Nat}

/-! ### Positions that operands lead to -/

/-- A later form of the same instruction has the same operands. -/
def IsShadowed (t : Tables) (i j : Nat) : Prop :=
  ∃ f j' g, t.form? i j = some f ∧ j < j' ∧ t.form? i j' = some g ∧ g.params = f.params

/-- Some operands of the instruction lead to the position. -/
def IsReached (t : Tables) (i j : Nat) : Prop :=
  ∃ ks, ((SignatureTrees.ofTables t).walk? i ks).bind (·.form) = some j

theorem isShadowed_iff :
    t.IsShadowed i j ↔ ∃ fs, t.instructions[i]? = some fs ∧ j ∈ repeated (fs.map (·.params)) := by
  have hform : ∀ j, t.form? i j = t.instructions[i]?.bind (·[j]?) := fun _ => rfl
  rw [IsShadowed]
  simp only [hform]
  cases t.instructions[i]? with
  | none => simp
  | some fs =>
    simp only [repeated, Option.bind_some, Option.some.injEq, exists_eq_left', List.getElem?_map,
      Option.map_eq_some_iff, Set.mem_ofPred_eq]
    constructor
    · rintro ⟨f, j', g, hf, hj, hg, hparams⟩
      exact ⟨f.params, j', ⟨f, hf, rfl⟩, hj, g, hg, hparams⟩
    · rintro ⟨ks, j', ⟨f, hf, rfl⟩, hj, g, hg, hparams⟩
      exact ⟨f, j', g, hf, hj, hg, hparams⟩

/-- Operands lead to the last position at which a form has them. -/
theorem walk?_bind_form_eq_some_iff {ks : List OperandKind} :
    ((SignatureTrees.ofTables t).walk? i ks).bind (·.form) = some j ↔
      ∃ f, t.form? i j = some f ∧ f.params = ks ∧
        ∀ j' g, j < j' → t.form? i j' = some g → g.params ≠ ks := by
  have hform : ∀ j, t.form? i j = (t.forms? i).bind (·[j]?) := fun _ => rfl
  rw [SignatureTrees.walk?_bind_form]
  simp only [hform]
  cases t.forms? i with
  | none => simp
  | some fs =>
    have hsearch : ∀ (f : Form) (j : Nat), (fs.zipIdx.reverse.find? fun e => e.1.accepts ks) = some (f, j) ↔
        fs[j]? = some f ∧ f.params = ks ∧ ∀ j' g, j < j' → fs[j']? = some g → g.params ≠ ks := by
      intro f j
      have haccepts : ∀ f : Form, f.accepts ks = true ↔ f.params = ks := fun f => decide_eq_true_iff
      simp only [ne_eq, ← haccepts]
      exact find?_reverse_zipIdx_eq_some_iff fun f : Form => f.accepts ks
    rw [Option.bind_some, Option.map_eq_some_iff, Prod.exists]
    simp only [hsearch, exists_eq_right, Option.bind_some]

/-- The shadowed forms are those that no operands lead to. -/
theorem isShadowed_iff_not_isReached : t.IsShadowed i j ↔ (∃ f, t.form? i j = some f) ∧ ¬ t.IsReached i j := by
  simp only [IsReached, walk?_bind_form_eq_some_iff]
  constructor
  · rintro ⟨f, j', g, hf, hj, hg, hparams⟩
    refine ⟨⟨f, hf⟩, ?_⟩
    rintro ⟨ks, f', hf', rfl, hlast⟩
    obtain rfl : f = f' := Option.some.inj (hf.symm.trans hf')
    exact hlast j' g hj hg hparams
  · rintro ⟨⟨f, hf⟩, hunreached⟩
    by_contra hlast
    refine hunreached ⟨f.params, f, hf, rfl, fun j' g hj hg hparams => ?_⟩
    exact hlast ⟨f, j', g, hf, hj, hg, hparams⟩

/-- The number of different lists of operands of an instruction. -/
def signatureCount (fs : List Form) : Nat :=
  (fs.map (·.params)).toFinset.card

end Tables

namespace SignatureTrees

/-! ### Counting -/

theorem shadowed_eq_sum (t : Tables) :
    (ofTables t).shadowed = (t.instructions.map fun fs => (Signature.Node.empty.insertAll 0 fs).2).sum := by
  have hsum : (ofTables t).shadowed =
      ((t.instructions.map (Signature.Node.empty.insertAll 0)).map (·.2)).foldl (· + ·) 0 := rfl
  rw [hsum, ← List.sum_eq_foldl, List.map_map]
  rfl

/-- The forms counted and the different lists of operands, instruction by instruction, are as many as the forms. -/
theorem shadowed_add_signatures (t : Tables) :
    (ofTables t).shadowed + (t.instructions.map Tables.signatureCount).sum =
      (t.instructions.map (·.length)).sum := by
  have hcount : ∀ fs : List Tables.Form,
      (Signature.Node.empty.insertAll 0 fs).2 + Tables.signatureCount fs = fs.length := by
    intro fs
    have h := Signature.Node.shadowed_insertAll .empty 0 fs
    simp only [Signature.Node.find?_empty, Finset.filter_true] at h
    exact h
  rw [shadowed_eq_sum, ← List.sum_map_add]
  simp only [hcount]

theorem shadowed_eq_ncard_places (t : Tables) :
    (ofTables t).shadowed = (places (fun fs => repeated (fs.map Tables.Form.params)) t.instructions).ncard := by
  have hsignatures := shadowed_add_signatures t
  have hrepeated : (t.instructions.map fun fs => (repeated (fs.map Tables.Form.params)).ncard).sum +
      (t.instructions.map Tables.signatureCount).sum = (t.instructions.map (·.length)).sum := by
    rw [← List.sum_map_add]
    congr 1
    refine List.map_congr_left fun fs _ => ?_
    rw [Tables.signatureCount, ncard_repeated, List.length_map]
  rw [ncard_places fun fs => finite_repeated _]
  omega

/-- The number of shadowed forms that is counted is that of the forms with a later form of the same operands, which is
that of the forms whose position no operands lead to, and what the different lists of operands of the instructions fall
short of the forms. -/
theorem shadowed_eq_encard (t : Tables) :
    {e : Nat × Nat | t.IsShadowed e.1 e.2}.encard = (ofTables t).shadowed ∧
    {e : Nat × Nat | (∃ f, t.form? e.1 e.2 = some f) ∧ ¬ t.IsReached e.1 e.2}.encard = (ofTables t).shadowed ∧
    (ofTables t).shadowed + (t.instructions.map Tables.signatureCount).sum = (t.instructions.map (·.length)).sum := by
  have hplaces : {e : Nat × Nat | t.IsShadowed e.1 e.2} =
      places (fun fs => repeated (fs.map Tables.Form.params)) t.instructions := by
    ext e
    exact Tables.isShadowed_iff
  have hcount : {e : Nat × Nat | t.IsShadowed e.1 e.2}.encard = (ofTables t).shadowed := by
    rw [hplaces, shadowed_eq_ncard_places]
    exact ((finite_places (fun fs => finite_repeated _) _).cast_ncard_eq).symm
  refine ⟨hcount, ?_, shadowed_add_signatures t⟩
  simp only [← Tables.isShadowed_iff_not_isReached]
  exact hcount

end SignatureTrees

end OpcodeTables
