import Mathlib.Data.List.Basic
import OpcodeTables.Signature

/-!
# Signature trees and plain search

Inserting operands is an update of the map from operands to positions (`Node.find?_insert`).  After all forms of an
instruction were inserted, operands lead to the position of the last form that accepts them (`Node.find?_insertAll`),
so a signature tree finds what a search through the forms from behind finds (`SignatureTrees.resolve_eq`).
-/

namespace OpcodeTables

/-! ### Searching from behind -/

/-- The element found from behind is the last one with the property. -/
theorem find?_reverse_eq_some_iff {α : Type} {p : α → Bool} {as : List α} {a : α} :
    as.reverse.find? p = some a ↔ ∃ before after, as = before ++ a :: after ∧ p a ∧ ∀ b ∈ after, ¬ p b := by
  rw [List.find?_eq_some_iff_append]
  constructor
  · rintro ⟨ha, after, before, has, hafter⟩
    refine ⟨before.reverse, after.reverse, ?_, ha, ?_⟩
    · rw [← List.reverse_reverse as, has]
      simp
    · intro b hb
      have hb := hafter b (List.mem_reverse.1 hb)
      simpa using hb
  · rintro ⟨before, after, rfl, ha, hafter⟩
    refine ⟨ha, after.reverse, before.reverse, by simp, ?_⟩
    intro b hb
    have hb := hafter b (List.mem_reverse.1 hb)
    simpa using hb

/-- The position of the last element with a property holds this element. -/
theorem getElem?_find?_zipIdx {α : Type} (p : α → Bool) (as : List α) :
    ((as.zipIdx.reverse.find? fun e => p e.1).map (·.2)).bind (as[·]?) = as.reverse.find? p := by
  have hfst : as.reverse.find? p = (as.zipIdx.reverse.find? fun e => p e.1).map (·.1) := by
    conv_lhs => rw [← List.zipIdx_map_fst 0 as, ← List.map_reverse, List.find?_map]
    rfl
  rw [hfst]
  cases h : as.zipIdx.reverse.find? fun e => p e.1 with
  | none => rfl
  | some e =>
    have he := List.mem_reverse.1 (List.mem_of_find?_eq_some h)
    exact List.mem_zipIdx_iff_getElem?.1 he

/-- A search from behind finds an element at the last position of one with the property. -/
theorem find?_reverse_zipIdx_eq_some_iff {α : Type} (p : α → Bool) {as : List α} {a : α} {j : Nat} :
    (as.zipIdx.reverse.find? fun e => p e.1) = some (a, j) ↔
      as[j]? = some a ∧ p a ∧ ∀ j' b, j < j' → as[j']? = some b → ¬ p b := by
  have hpositions : as.zipIdx.Pairwise fun e e' => e.2 < e'.2 := by
    have hsnd : (as.zipIdx.map Prod.snd).Pairwise (· < ·) := by
      rw [List.zipIdx_map_snd]
      exact List.pairwise_lt_range'
    exact List.pairwise_map.1 hsnd
  rw [find?_reverse_eq_some_iff]
  constructor
  · rintro ⟨before, after, hsplit, ha, hafter⟩
    have hmem : (a, j) ∈ as.zipIdx := by simp [hsplit]
    refine ⟨List.mem_zipIdx_iff_getElem?.1 hmem, ha, fun j' b hj hb => ?_⟩
    have hmem' : (b, j') ∈ as.zipIdx := List.mem_zipIdx_iff_getElem?.2 hb
    -- what stands at a later position comes after
    rw [hsplit] at hpositions hmem'
    have hbefore := (List.pairwise_append.1 hpositions).2.2
    rcases List.mem_append.1 hmem' with hb | hb
    · have := hbefore _ hb _ List.mem_cons_self
      omega
    · rcases List.mem_cons.1 hb with hb | hb
      · cases hb
        omega
      · exact hafter _ hb
  · rintro ⟨ha, hpa, hlast⟩
    have hmem : (a, j) ∈ as.zipIdx := List.mem_zipIdx_iff_getElem?.2 ha
    obtain ⟨before, after, hsplit⟩ := List.append_of_mem hmem
    refine ⟨before, after, hsplit, hpa, fun e he => ?_⟩
    have hmem : e ∈ as.zipIdx := by simp [hsplit, he]
    rw [hsplit] at hpositions
    have hlt := List.rel_of_pairwise_cons (List.pairwise_append.1 hpositions).2.1 he
    exact hlast e.2 e.1 hlt (List.mem_zipIdx_iff_getElem?.1 hmem)

namespace Signature.Node

/-! ### Insertion -/

private theorem lookup_pair (k k' : OperandKind) (c : Node) (cs : List (OperandKind × Node)) :
    ((k, c) :: cs).lookup k' = if k' = k then some c else cs.lookup k' := by
  rw [List.lookup_cons]
  by_cases hk : k' = k
  · simp [hk]
  · rw [if_neg hk, beq_eq_false_iff_ne.2 hk]

theorem lookup_setChild (k k' : OperandKind) (c : Node) (cs : List (OperandKind × Node)) :
    (setChild k c cs).lookup k' = if k' = k then some c else cs.lookup k' := by
  induction cs with
  | nil => exact lookup_pair k k' c []
  | cons d cs ih =>
    obtain ⟨l, d⟩ := d
    rw [setChild]
    by_cases hl : l = k
    · subst hl
      rw [if_pos rfl, lookup_pair, lookup_pair]
      by_cases hk : k' = l
      · rw [if_pos hk, if_pos hk]
      · rw [if_neg hk, if_neg hk, if_neg hk]
    · rw [if_neg hl, lookup_pair, lookup_pair, ih]
      by_cases hk : k' = l
      · have hne : k' ≠ k := fun h => hl (hk.symm.trans h)
        rw [if_pos hk, if_neg hne, if_pos hk]
      · rw [if_neg hk, if_neg hk]

theorem find?_cons (n : Node) (k : OperandKind) (ks : List OperandKind) :
    n.find? (k :: ks) = (n.child? k).bind (·.find? ks) := by
  rw [find?, walk?]
  cases n.child? k with
  | none => rfl
  | some c => rfl

theorem find?_empty (ks : List OperandKind) : empty.find? ks = none := by
  cases ks with
  | nil => rfl
  | cons k ks => rfl

theorem child?_insert (n : Node) (k k' : OperandKind) (ks : List OperandKind) (j : Nat) :
    (n.insert (k :: ks) j).child? k' =
      if k' = k then some (((n.child? k).getD empty).insert ks j) else n.child? k' :=
  lookup_setChild k k' _ n.children

/-- Insertion is an update: the operands inserted lead to the position, all others to where they led before. -/
theorem find?_insert (n : Node) (ks ks' : List OperandKind) (j : Nat) :
    (n.insert ks j).find? ks' = if ks' = ks then some j else n.find? ks' := by
  induction ks generalizing n ks' with
  | nil =>
    cases ks' with
    | nil => rfl
    | cons k' ks' =>
      rw [find?_cons, find?_cons, if_neg (by simp)]
      rfl
  | cons k ks ih =>
    cases ks' with
    | nil =>
      rw [if_neg (by simp)]
      rfl
    | cons k' ks' =>
      rw [find?_cons, find?_cons, child?_insert]
      by_cases hk : k' = k
      · subst hk
        rw [if_pos rfl, Option.bind_some, ih]
        by_cases hks : ks' = ks
        · simp [hks]
        · -- where there was no child, nothing was found before
          cases hc : n.child? k' with
          | none => simp [hks, find?_empty]
          | some c => simp [hks]
      · simp [hk]

/-- Operands lead to the position of the last form that accepts them. -/
theorem find?_insertAll (n : Node) (j : Nat) (fs : List Tables.Form) (ks : List OperandKind) :
    (n.insertAll j fs).1.find? ks =
      (((fs.zipIdx j).reverse.find? fun e => e.1.accepts ks).map (·.2)).or (n.find? ks) := by
  induction fs generalizing n j with
  | nil => rfl
  | cons f fs ih =>
    have hstep : (n.insertAll j (f :: fs)).1 = ((n.insert f.params j).insertAll (j + 1) fs).1 := rfl
    rw [hstep, ih, find?_insert, List.zipIdx_cons, List.reverse_cons, List.find?_append]
    cases (fs.zipIdx (j + 1)).reverse.find? fun e => e.1.accepts ks with
    | some e => rfl
    | none =>
      by_cases hks : ks = f.params
      · simp [Tables.Form.accepts, hks]
      · simp [Tables.Form.accepts, hks, Ne.symm hks]

end Signature.Node

namespace SignatureTrees

/-! ### Resolution -/

theorem getElem?_roots (t : Tables) (i : Nat) :
    (ofTables t).roots[i]? = (t.forms? i).map fun fs => (Signature.Node.empty.insertAll 0 fs).1 := by
  simp only [ofTables, Tables.forms?, List.map_map, List.getElem?_map, Function.comp_def]

/-- Operands lead to the position that a search through the forms from behind finds. -/
theorem walk?_bind_form (t : Tables) (i : Nat) (ks : List OperandKind) :
    ((ofTables t).walk? i ks).bind (·.form) =
      (t.forms? i).bind fun fs => (fs.zipIdx.reverse.find? fun e => e.1.accepts ks).map (·.2) := by
  rw [walk?, getElem?_roots]
  cases t.forms? i with
  | none => rfl
  | some fs =>
    have hfind := Signature.Node.find?_insertAll .empty 0 fs ks
    rw [Signature.Node.find?_empty, Option.or_none] at hfind
    exact hfind

/-- A signature tree finds what a search through the forms from behind finds. -/
theorem resolve_eq (t : Tables) (i : Nat) (ks : List OperandKind) :
    (ofTables t).resolve i ks = (t.forms? i).bind fun fs => fs.reverse.find? (·.accepts ks) := by
  have hform : (ofTables t).tables.form? i = fun j => (t.forms? i).bind (·[j]?) := rfl
  rw [resolve, walk?_bind_form, hform]
  cases t.forms? i with
  | none => rfl
  | some fs => exact getElem?_find?_zipIdx (·.accepts ks) fs

/-- Operands resolve to some form just if one of the instruction has them. -/
theorem exists_resolve_iff (t : Tables) (i : Nat) (ks : List OperandKind) :
    (∃ f, (ofTables t).resolve i ks = some f) ↔ ∃ f ∈ (t.forms? i).getD [], f.params = ks := by
  rw [resolve_eq, ← Option.isSome_iff_exists]
  cases t.forms? i with
  | none => simp
  | some fs => simp [Tables.Form.accepts]

/-- Operands resolve to a form of an instruction exactly if it is the last one that accepts them, and to none exactly
if there is no such form. -/
theorem resolve_eq_last_accepting (t : Tables) (i : Nat) (ks : List OperandKind) :
    (∀ f, (ofTables t).resolve i ks = some f ↔
      ∃ before after, t.forms? i = some (before ++ f :: after) ∧ f.accepts ks ∧ ∀ g ∈ after, ¬ g.accepts ks) ∧
    ((ofTables t).resolve i ks = none ↔ ∀ fs, t.forms? i = some fs → ∀ f ∈ fs, ¬ f.accepts ks) := by
  rw [resolve_eq]
  constructor
  · intro f
    rw [Option.bind_eq_some_iff]
    constructor
    · rintro ⟨fs, hfs, hf⟩
      obtain ⟨before, after, rfl, ha, hafter⟩ := find?_reverse_eq_some_iff.1 hf
      exact ⟨before, after, hfs, ha, hafter⟩
    · rintro ⟨before, after, hfs, ha, hafter⟩
      exact ⟨_, hfs, find?_reverse_eq_some_iff.2 ⟨before, after, rfl, ha, hafter⟩⟩
  · rw [Option.bind_eq_none_iff]
    simp only [List.find?_eq_none, List.mem_reverse]

end SignatureTrees

end OpcodeTables
