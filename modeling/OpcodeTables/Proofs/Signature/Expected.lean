import OpcodeTables.Proofs.Signature

/-!
# Operands that may come next

The kinds of the children of a node come in the order in which they were inserted: an insertion puts a kind that is new
at the end and leaves all others in their places (`Node.following_insert_append`, `Node.following_insert_of_forall_not`).
So the kinds that may follow some operands are those that do in one of the forms, each listed once and ordered by the
first form in which it does (`Node.Lists.insert`, `Node.Lists.insertAll`).
-/

namespace OpcodeTables

open Tables (Form)

/-- The position of the first form whose operands begin with the given ones. -/
def Tables.firstPosition (fs : List Form) (ks : List OperandKind) : Nat :=
  fs.findIdx fun f => ks.isPrefixOf f.params

namespace Tables

variable {fs : List Form} {ks : List OperandKind}

theorem firstPosition_append (fs gs : List Form) (ks : List OperandKind) :
    firstPosition (fs ++ gs) ks =
      if firstPosition fs ks < fs.length then firstPosition fs ks else firstPosition gs ks + fs.length :=
  List.findIdx_append

theorem firstPosition_lt_length_iff : firstPosition fs ks < fs.length ↔ ∃ f ∈ fs, ks <+: f.params := by
  simp only [firstPosition, List.findIdx_lt_length, List.isPrefixOf_iff_prefix]

end Tables

namespace Signature.Node

open Tables (firstPosition firstPosition_append firstPosition_lt_length_iff)

/-! ### Children after an insertion -/

/-- The kinds that lead on from where the given ones lead. -/
def following (n : Node) (p : List OperandKind) : List OperandKind :=
  match n.walk? p with
  | none => []
  | some c => c.children.map (·.1)

theorem following_nil (n : Node) : n.following [] = n.children.map (·.1) :=
  rfl

theorem following_empty (p : List OperandKind) : empty.following p = [] := by
  cases p <;> rfl

theorem following_cons (n : Node) (k : OperandKind) (p : List OperandKind) :
    n.following (k :: p) = ((n.child? k).getD empty).following p := by
  rw [following, walk?]
  cases n.child? k with
  | none => exact (following_empty p).symm
  | some c => rfl

theorem map_fst_setChild (k : OperandKind) (c : Node) (cs : List (OperandKind × Node)) :
    (setChild k c cs).map (·.1) = if k ∈ cs.map (·.1) then cs.map (·.1) else cs.map (·.1) ++ [k] := by
  induction cs with
  | nil => rfl
  | cons d cs ih =>
    obtain ⟨l, d⟩ := d
    rw [setChild, List.map_cons]
    by_cases hl : l = k
    · rw [if_pos hl, if_pos (by simp [hl]), List.map_cons, hl]
    · rw [if_neg hl, List.map_cons, ih]
      by_cases hk : k ∈ cs.map (·.1)
      · rw [if_pos hk, if_pos (List.mem_cons_of_mem _ hk)]
      · rw [if_neg hk, if_neg (List.not_mem_cons_of_ne_of_not_mem (Ne.symm hl) hk), List.cons_append]

/-- Where the operands inserted go on, the kind that comes next is listed, at the end if it is new. -/
theorem following_insert_append (n : Node) (p : List OperandKind) (k : OperandKind) (ks : List OperandKind) (j : Nat) :
    (n.insert (p ++ k :: ks) j).following p =
      if k ∈ n.following p then n.following p else n.following p ++ [k] := by
  induction p generalizing n with
  | nil =>
    rw [following_nil, following_nil]
    exact map_fst_setChild k _ n.children
  | cons l p ih => rw [List.cons_append, following_cons, following_cons, child?_insert, if_pos rfl, Option.getD_some, ih]

/-- Elsewhere an insertion changes nothing. -/
theorem following_insert_of_forall_not (n : Node) {p ks : List OperandKind} (h : ∀ k, ¬ p ++ [k] <+: ks) (j : Nat) :
    (n.insert ks j).following p = n.following p := by
  induction p generalizing n ks with
  | nil =>
    cases ks with
    | nil => rfl
    | cons k ks => exact absurd (List.prefix_append [k] ks) (h k)
  | cons l p ih =>
    rw [following_cons, following_cons]
    cases ks with
    | nil => rfl
    | cons k ks =>
      rw [child?_insert]
      by_cases hl : l = k
      · subst hl
        rw [if_pos rfl, Option.getD_some]
        refine ih _ fun k hk => h k ?_
        rw [List.cons_append]
        exact List.cons_prefix_cons.2 ⟨rfl, hk⟩
      · rw [if_neg hl]

/-! ### All insertions -/

/-- The kinds are those after `p` in the forms, in the order of the first forms in which they come there. -/
structure Lists (fs : List Form) (p kinds : List OperandKind) : Prop where
  mem_iff : ∀ k, k ∈ kinds ↔ ∃ f ∈ fs, p ++ [k] <+: f.params
  ordered : kinds.Pairwise fun k k' => firstPosition fs (p ++ [k]) < firstPosition fs (p ++ [k'])

variable {fs : List Form} {p kinds : List OperandKind}

theorem Lists.nodup (h : Lists fs p kinds) : kinds.Nodup := by
  rw [List.nodup_iff_pairwise_ne]
  refine h.ordered.imp fun hlt => ?_
  rintro rfl
  exact absurd hlt (Nat.lt_irrefl _)

/-- More forms at the end do not change where a kind comes first. -/
theorem Lists.firstPosition_append_eq (h : Lists fs p kinds) {k : OperandKind} (hk : k ∈ kinds) (gs : List Form) :
    firstPosition (fs ++ gs) (p ++ [k]) = firstPosition fs (p ++ [k]) := by
  have hlt := firstPosition_lt_length_iff.2 ((h.mem_iff k).1 hk)
  rw [firstPosition_append, if_pos hlt]

theorem Lists.ordered_append (h : Lists fs p kinds) (gs : List Form) :
    kinds.Pairwise fun k k' => firstPosition (fs ++ gs) (p ++ [k]) < firstPosition (fs ++ gs) (p ++ [k']) := by
  refine h.ordered.imp_of_mem fun hk hk' hlt => ?_
  rwa [h.firstPosition_append_eq hk, h.firstPosition_append_eq hk']

theorem mem_forms_append_iff (h : Lists fs p kinds) (f : Form) (k : OperandKind) :
    (∃ g ∈ fs ++ [f], p ++ [k] <+: g.params) ↔ k ∈ kinds ∨ p ++ [k] <+: f.params := by
  rw [h.mem_iff]
  simp only [List.mem_append, List.mem_singleton, or_and_right, exists_or, exists_eq_left]

/-- A form that goes on with a kind that is listed changes nothing. -/
theorem Lists.keep (h : Lists fs p kinds) {f : Form} (hf : ∀ k, p ++ [k] <+: f.params → k ∈ kinds) :
    Lists (fs ++ [f]) p kinds where
  mem_iff k := by
    rw [mem_forms_append_iff h]
    exact ⟨Or.inl, fun hk => hk.elim id (hf k)⟩
  ordered := h.ordered_append [f]

/-- A kind that a form is the first to go on with is listed last. -/
theorem Lists.extend (h : Lists fs p kinds) {f : Form} {k : OperandKind} (hf : ∀ k', p ++ [k'] <+: f.params ↔ k' = k)
    (hk : k ∉ kinds) : Lists (fs ++ [f]) p (kinds ++ [k]) where
  mem_iff k' := by
    rw [mem_forms_append_iff h, hf, List.mem_append, List.mem_singleton]
  ordered := by
    rw [List.pairwise_append]
    refine ⟨h.ordered_append [f], List.pairwise_singleton _ _, fun k' hk' k'' hk'' => ?_⟩
    rw [List.mem_singleton.1 hk'', h.firstPosition_append_eq hk']
    -- the new kind comes first in the last form
    have hold : firstPosition fs (p ++ [k']) < fs.length := firstPosition_lt_length_iff.2 ((h.mem_iff k').1 hk')
    have hnew : ¬ firstPosition fs (p ++ [k]) < fs.length := by
      rw [firstPosition_lt_length_iff, ← h.mem_iff]
      exact hk
    rw [firstPosition_append, if_neg hnew]
    omega

theorem Lists.insert {n : Node} (h : Lists fs p (n.following p)) (f : Form) (j : Nat) :
    Lists (fs ++ [f]) p ((n.insert f.params j).following p) := by
  by_cases hgoes : ∃ k, p ++ [k] <+: f.params
  · obtain ⟨k, ks, hparams⟩ := hgoes
    have hparams : f.params = p ++ k :: ks := by rw [← hparams, List.append_assoc, List.singleton_append]
    have hnext : ∀ k', p ++ [k'] <+: f.params ↔ k' = k := by
      intro k'
      rw [hparams, List.prefix_append_right_inj, List.singleton_prefix_cons_iff]
    rw [hparams, following_insert_append]
    by_cases hk : k ∈ n.following p
    · rw [if_pos hk]
      refine h.keep fun k' hk' => ?_
      rwa [(hnext k').1 hk']
    · rw [if_neg hk]
      exact h.extend hnext hk
  · rw [not_exists] at hgoes
    rw [following_insert_of_forall_not n hgoes]
    exact h.keep fun k hk => absurd hk (hgoes k)

theorem Lists.insertAll {n : Node} (h : Lists fs p (n.following p)) (gs : List Form) (j : Nat) :
    Lists (fs ++ gs) p ((n.insertAll j gs).1.following p) := by
  induction gs generalizing n fs j with
  | nil =>
    rw [List.append_nil]
    exact h
  | cons g gs ih =>
    have hrest := ih (h.insert g j) (j + 1)
    rw [List.append_assoc, List.singleton_append] at hrest
    exact hrest

end Signature.Node

namespace SignatureTrees

open Signature (Node)
open Tables (firstPosition)

theorem expectedAfter_eq (t : Tables) (i : Nat) (p : List OperandKind) :
    (ofTables t).expectedAfter i p = (Node.empty.insertAll 0 ((t.forms? i).getD [])).1.following p := by
  rw [expectedAfter, walk?, getElem?_roots]
  cases t.forms? i with
  | none => exact (Node.following_empty p).symm
  | some fs => rfl

theorem lists_expectedAfter (t : Tables) (i : Nat) (p : List OperandKind) :
    Node.Lists ((t.forms? i).getD []) p ((ofTables t).expectedAfter i p) := by
  have hempty : Node.Lists [] p (Node.empty.following p) := by
    rw [Node.following_empty]
    exact ⟨by simp, List.Pairwise.nil⟩
  rw [expectedAfter_eq]
  exact hempty.insertAll _ 0

/-- The kinds that may follow some operands of an instruction are those that come after them in one of its forms, or in
other words those with which some operands go on that resolve to a form.  Each is listed once, ordered by the first form
in which it comes there; none is listed just if the forms that begin with these operands have no more. -/
theorem mem_expectedAfter_iff (t : Tables) (i : Nat) (p : List OperandKind) :
    let fs := (t.forms? i).getD []
    let kinds := (ofTables t).expectedAfter i p
    kinds.Nodup ∧
    (∀ k, k ∈ kinds ↔ ∃ f ∈ fs, p ++ [k] <+: f.params) ∧
    kinds.Pairwise (fun k k' => firstPosition fs (p ++ [k]) < firstPosition fs (p ++ [k'])) ∧
    (kinds = [] ↔ ∀ f ∈ fs, p <+: f.params → f.params = p) ∧
    ∀ k, k ∈ kinds ↔ ∃ q f, (ofTables t).resolve i (p ++ [k] ++ q) = some f := by
  intro fs kinds
  have h : Node.Lists fs p kinds := lists_expectedAfter t i p
  refine ⟨h.nodup, h.mem_iff, h.ordered, ?_, fun k => ?_⟩
  · rw [List.eq_nil_iff_forall_not_mem]
    simp only [h.mem_iff]
    constructor
    · rintro hnone f hf ⟨ks, hparams⟩
      cases ks with
      | nil => rw [← hparams, List.append_nil]
      | cons k ks => exact absurd ⟨f, hf, ks, by rw [← hparams, List.append_assoc]; rfl⟩ (hnone k)
    · rintro hends k ⟨f, hf, hparams⟩
      have hp := hends f hf ((List.prefix_append p [k]).trans hparams)
      have hle := hparams.length_le
      rw [hp, List.length_append, List.length_singleton] at hle
      omega
  · rw [h.mem_iff]
    simp only [exists_resolve_iff]
    constructor
    · rintro ⟨f, hf, q, hparams⟩
      exact ⟨q, f, hf, hparams.symm⟩
    · rintro ⟨q, f, hf, hparams⟩
      exact ⟨f, hf, q, hparams.symm⟩

example :
    let form (params : List OperandKind) : Tables.Form := ⟨.symbol "OP", .none, params, []⟩
    let forms := [form [.intType, .intNum], form [.intReg], form [.intType, .regOffset], form [.intType],
      form [.intType, .intNum, .intReg]]
    (ofTables ⟨[], [⟨"store", 0⟩], [forms]⟩).expectedAfter 0 [.intType] = [.intNum, .regOffset] := by
  decide

end SignatureTrees

end OpcodeTables
