import Mathlib.Data.List.Nodup
import OpcodeTables.Proofs.Signature.Expected

/-!
# Insertion into a signature tree

A position is inserted by walking from child to child, where a missing child is put at the end first, and replacing what
the last node holds.  The tree becomes what `Node.insert` says, and the position replaced is the one that the operands
led to (`Node.replace_eq`).  A tree is well formed if no node of it has two children of the same kind; each of its nodes
is then the one that walking along its path leads to (`Node.WellFormed.walk?_eq_some_iff`).  An insertion keeps a tree
well formed (`Node.WellFormed.replace`), so the trees of all tables are (`SignatureTrees.wellFormed_of_mem_roots`).
-/

namespace OpcodeTables

namespace Signature.Node

/-! ### Insertion in place -/

/-- The node with a child of kind `k`, which is put at the end if there is none, and the position of this child. -/
def withChild (n : Node) (k : OperandKind) : (m : Node) × Fin m.children.length :=
  match n.children.findFinIdx? (·.1 = k) with
  | some i => ⟨n, i⟩
  | none => ⟨⟨n.form, n.children ++ [(k, empty)]⟩, ⟨n.children.length, by simp [children]⟩⟩

/-- The position that `j` replaces at the node that the kinds lead to, and the tree after that. -/
def replace (n : Node) : List OperandKind → (j : Nat) → Option Nat × Node
  | [], j => (n.form, ⟨some j, n.children⟩)
  | k :: ks, j =>
    let ⟨m, i⟩ := n.withChild k
    let (previous, c) := (m.children.get i).2.replace ks j
    (previous, ⟨m.form, m.children.set i ((m.children.get i).1, c)⟩)

private theorem setChild_append {k : OperandKind} {before : List (OperandKind × Node)} (h : ∀ e ∈ before, e.1 ≠ k)
    (c : Node) (cs : List (OperandKind × Node)) : setChild k c (before ++ cs) = before ++ setChild k c cs := by
  induction before with
  | nil => rfl
  | cons e before ih =>
    rw [List.forall_mem_cons] at h
    rw [List.cons_append, setChild, if_neg h.1, ih h.2, List.cons_append]

/-- The position found splits the children at the first one of the kind. -/
private theorem split_of_findFinIdx? {k : OperandKind} {cs : List (OperandKind × Node)} {i : Fin cs.length}
    (h : cs.findFinIdx? (·.1 = k) = some i) :
    (cs.get i).1 = k ∧ cs = cs.take i ++ cs.get i :: cs.drop (i + 1) ∧ ∀ e ∈ cs.take i, e.1 ≠ k := by
  obtain ⟨hk, hfirst⟩ := List.findFinIdx?_eq_some_iff.1 h
  refine ⟨decide_eq_true_iff.1 hk, ?_, fun e he => ?_⟩
  · rw [List.get_eq_getElem, List.getElem_cons_drop, List.take_append_drop]
  · obtain ⟨j, hj, rfl⟩ := List.mem_take_iff_getElem.1 he
    obtain ⟨hji, hlt⟩ := Nat.lt_min.1 hj
    have hne := hfirst ⟨j, hlt⟩ hji
    rwa [decide_eq_true_eq] at hne

/-- The child at the position is the one that is looked up, and it is set there as `setChild` sets it. -/
theorem withChild_eq {n m : Node} {k : OperandKind} {i : Fin m.children.length} (h : n.withChild k = ⟨m, i⟩) :
    m.form = n.form ∧ m.children.get i = (k, (n.child? k).getD empty) ∧
      ∀ c, m.children.set i (k, c) = setChild k c n.children := by
  rw [withChild] at h
  cases hfind : n.children.findFinIdx? (·.1 = k) with
  | some i =>
    rw [hfind] at h
    cases h
    obtain ⟨hk, hsplit, hbefore⟩ := split_of_findFinIdx? hfind
    have hchild : n.children.get i = (k, (n.children.get i).2) := Prod.ext hk rfl
    rw [hchild] at hsplit
    have hlookup : n.child? k = some (n.children.get i).2 :=
      List.lookup_eq_some_iff.2 ⟨_, _, hsplit, fun e he => bne_iff_ne.2 (hbefore e he).symm⟩
    refine ⟨rfl, ?_, fun c => ?_⟩
    · rw [hlookup, Option.getD_some, ← hchild]
    · rw [List.set_eq_take_append_cons_drop, if_pos i.isLt]
      conv_rhs => rw [hsplit]
      rw [setChild_append hbefore, setChild, if_pos rfl]
  | none =>
    rw [hfind] at h
    cases h
    have hnone : ∀ e ∈ n.children, e.1 ≠ k := by
      simpa only [decide_eq_true_eq] using List.findFinIdx?_eq_none_iff.1 hfind
    have hlookup : n.child? k = none :=
      List.lookup_eq_none_iff.2 fun e he => bne_iff_ne.2 (hnone e he).symm
    refine ⟨rfl, ?_, fun c => ?_⟩
    · rw [hlookup, Option.getD_none]
      exact List.getElem_concat_length rfl _
    · have hset := setChild_append hnone c []
      rw [List.append_nil] at hset
      change (n.children ++ [(k, empty)]).set n.children.length (k, c) = setChild k c n.children
      rw [hset, List.set_append_right _ _ (Nat.le_refl _), Nat.sub_self]
      rfl

/-- Walking and replacing finds what the kinds lead to and is an insertion. -/
theorem replace_eq (n : Node) (ks : List OperandKind) (j : Nat) : n.replace ks j = (n.find? ks, n.insert ks j) := by
  induction ks generalizing n with
  | nil => rfl
  | cons k ks ih =>
    cases hwith : n.withChild k with
    | mk m i =>
      obtain ⟨hform, hchild, hset⟩ := withChild_eq hwith
      have hstep : n.replace (k :: ks) j = (((m.children.get i).2.replace ks j).1,
          ⟨m.form, m.children.set i ((m.children.get i).1, ((m.children.get i).2.replace ks j).2)⟩) := by
        rw [replace, hwith]
      have hfind : n.find? (k :: ks) = ((n.child? k).getD empty).find? ks := by
        rw [find?_cons]
        cases n.child? k with
        | none => exact (find?_empty ks).symm
        | some c => rfl
      rw [hstep, hchild, ih, hset, hform, hfind, insert]

/-- The forms of an instruction are inserted one after the other, and each that replaces a position is counted. -/
theorem insertAll_cons (n : Node) (j : Nat) (f : Tables.Form) (fs : List Tables.Form) :
    n.insertAll j (f :: fs) =
      let (previous, m) := n.replace f.params j
      let (root, shadowed) := m.insertAll (j + 1) fs
      (root, (if previous.isSome then 1 else 0) + shadowed) := by
  rw [replace_eq]
  rfl

/-! ### Well-formed trees -/

/-- The node `m` stands in the tree `n` at the end of a path of children of the kinds `p`. -/
inductive Path : Node → List OperandKind → Node → Prop
  | here (n : Node) : Path n [] n
  | child {n c m : Node} {k : OperandKind} {p : List OperandKind} (hc : (k, c) ∈ n.children) (hm : Path c p m) :
    Path n (k :: p) m

/-- No node of the tree has two children of the same kind.  That each child has a kind is part of the type. -/
def WellFormed (n : Node) : Prop :=
  ∀ p m, n.Path p m → (m.children.map (·.1)).Nodup

theorem wellFormed_iff {n : Node} :
    n.WellFormed ↔ (n.children.map (·.1)).Nodup ∧ ∀ e ∈ n.children, e.2.WellFormed := by
  constructor
  · intro h
    exact ⟨h [] n (.here n), fun e he p m hm => h (e.1 :: p) m (.child he hm)⟩
  · rintro ⟨hkinds, hchildren⟩ p m hm
    cases hm with
    | here => exact hkinds
    | child hc hm => exact hchildren _ hc _ _ hm

theorem wellFormed_empty : empty.WellFormed := by
  rw [wellFormed_iff]
  exact ⟨List.nodup_nil, fun e he => absurd he List.not_mem_nil⟩

variable {n m : Node} {p q : List OperandKind} {j : Nat}

theorem mem_children_of_child? {k : OperandKind} {c : Node} (h : n.child? k = some c) : (k, c) ∈ n.children := by
  obtain ⟨before, after, hsplit, -⟩ := List.lookup_eq_some_iff.1 h
  rw [hsplit]
  exact List.mem_append_right _ List.mem_cons_self

theorem walk?_cons (n : Node) (k : OperandKind) (ks : List OperandKind) :
    n.walk? (k :: ks) = (n.child? k).bind (·.walk? ks) := by
  rw [walk?]
  cases n.child? k with
  | none => rfl
  | some c => rfl

theorem path_of_walk? (h : n.walk? p = some m) : n.Path p m := by
  induction p generalizing n with
  | nil =>
    cases h
    exact .here _
  | cons k p ih =>
    rw [walk?_cons] at h
    obtain ⟨c, hc, hm⟩ := Option.bind_eq_some_iff.1 h
    exact .child (mem_children_of_child? hc) (ih hm)

namespace WellFormed

theorem child?_eq_some_iff (h : n.WellFormed) {k : OperandKind} {c : Node} :
    n.child? k = some c ↔ (k, c) ∈ n.children := by
  refine ⟨mem_children_of_child?, fun hc => ?_⟩
  obtain ⟨before, after, hsplit⟩ := List.append_of_mem hc
  have hkinds := (wellFormed_iff.1 h).1
  rw [hsplit, List.map_append, List.map_cons] at hkinds
  refine List.lookup_eq_some_iff.2 ⟨before, after, hsplit, fun e he => bne_iff_ne.2 ?_⟩
  rintro rfl
  exact (List.nodup_append.1 hkinds).2.2 _ (List.mem_map_of_mem he) _ List.mem_cons_self rfl

/-- Each node of a well-formed tree is the one that walking along its path leads to. -/
theorem walk?_eq_some_iff (h : n.WellFormed) : n.walk? p = some m ↔ n.Path p m := by
  refine ⟨path_of_walk?, fun hm => ?_⟩
  induction hm with
  | here => rfl
  | child hc _ ih =>
    rw [walk?_cons, h.child?_eq_some_iff.2 hc]
    exact ih ((wellFormed_iff.1 h).2 _ hc)

end WellFormed

/-! ### Insertion into well-formed trees -/

theorem mem_setChild {k : OperandKind} {c : Node} {cs : List (OperandKind × Node)} {e : OperandKind × Node}
    (h : e ∈ setChild k c cs) : e = (k, c) ∨ e ∈ cs := by
  induction cs with
  | nil => exact .inl (List.mem_singleton.1 h)
  | cons d cs ih =>
    rw [setChild] at h
    by_cases hd : d.1 = k
    · rw [if_pos hd] at h
      exact (List.mem_cons.1 h).imp_right (List.mem_cons_of_mem d)
    · rw [if_neg hd] at h
      rcases List.mem_cons.1 h with rfl | h
      · exact .inr List.mem_cons_self
      · exact (ih h).imp_right (List.mem_cons_of_mem d)

theorem nodup_map_fst_setChild {k : OperandKind} {cs : List (OperandKind × Node)} (h : (cs.map (·.1)).Nodup)
    (c : Node) : ((setChild k c cs).map (·.1)).Nodup := by
  rw [map_fst_setChild]
  by_cases hk : k ∈ cs.map (·.1)
  · rwa [if_pos hk]
  · rw [if_neg hk, ← List.concat_eq_append]
    exact List.Nodup.concat hk h

theorem WellFormed.insert (h : n.WellFormed) (ks : List OperandKind) (j : Nat) : (n.insert ks j).WellFormed := by
  induction ks generalizing n with
  | nil =>
    -- the children stay the same
    have hsame : (n.insert [] j).children = n.children := rfl
    rw [wellFormed_iff, hsame]
    exact wellFormed_iff.1 h
  | cons k ks ih =>
    obtain ⟨hkinds, hchildren⟩ := wellFormed_iff.1 h
    have hchild : ((n.child? k).getD empty).WellFormed := by
      cases hc : n.child? k with
      | none => exact wellFormed_empty
      | some c => exact hchildren _ (mem_children_of_child? hc)
    refine wellFormed_iff.2 ⟨nodup_map_fst_setChild hkinds _, fun e he => ?_⟩
    rcases mem_setChild he with rfl | he
    · exact ih hchild
    · exact hchildren e he

theorem WellFormed.replace (h : n.WellFormed) (ks : List OperandKind) (j : Nat) : (n.replace ks j).2.WellFormed := by
  rw [replace_eq]
  exact h.insert ks j

theorem WellFormed.insertAll (h : n.WellFormed) (j : Nat) (fs : List Tables.Form) :
    (n.insertAll j fs).1.WellFormed := by
  induction fs generalizing n j with
  | nil => exact h
  | cons f fs ih =>
    rw [insertAll_cons]
    exact ih (h.replace f.params j) (j + 1)

/-! ### Nodes after an insertion -/

/-- An insertion adds the nodes along its operands that are missing and no others. -/
theorem exists_walk?_insert_iff (n : Node) (p q : List OperandKind) (j : Nat) :
    (∃ m, (n.insert p j).walk? q = some m) ↔ q <+: p ∨ ∃ m, n.walk? q = some m := by
  induction q generalizing n p with
  | nil => exact iff_of_true ⟨_, rfl⟩ (.inl List.nil_prefix)
  | cons l q ih =>
    cases p with
    | nil =>
      have hsame : (n.insert [] j).walk? (l :: q) = n.walk? (l :: q) := rfl
      rw [hsame, List.prefix_nil]
      simp only [reduceCtorEq, false_or]
    | cons k p =>
      rw [walk?_cons, walk?_cons, child?_insert, List.cons_prefix_cons]
      by_cases hl : l = k
      · subst hl
        rw [if_pos rfl, Option.bind_some, ih, and_iff_right rfl]
        cases n.child? l with
        | some c => rfl
        | none =>
          -- of an empty tree only the root is reached
          cases q with
          | nil => exact iff_of_true (.inl List.nil_prefix) (.inl List.nil_prefix)
          | cons l' q => rfl
      · rw [if_neg hl]
        simp only [hl, false_and, false_or]

/-- The kinds that lead on stay in their order, and only the one with which the operands inserted go on comes to them, at
the end. -/
theorem following_insert (n : Node) (p q : List OperandKind) (j : Nat) :
    ∃ added, (n.insert p j).following q = n.following q ++ added ∧
      ∀ k, k ∈ added ↔ k ∉ n.following q ∧ q ++ [k] <+: p := by
  by_cases hgoes : ∃ k, q ++ [k] <+: p
  · obtain ⟨k, ks, hp⟩ := hgoes
    rw [List.append_assoc, List.singleton_append] at hp
    subst hp
    rw [following_insert_append]
    simp only [List.prefix_append_right_inj, List.singleton_prefix_cons_iff]
    by_cases hk : k ∈ n.following q
    · refine ⟨[], by rw [if_pos hk, List.append_nil], fun k' => ?_⟩
      refine iff_of_false List.not_mem_nil ?_
      rintro ⟨hk', rfl⟩
      exact hk' hk
    · refine ⟨[k], by rw [if_neg hk], fun k' => ?_⟩
      rw [List.mem_singleton]
      refine ⟨?_, And.right⟩
      rintro rfl
      exact ⟨hk, rfl⟩
  · rw [not_exists] at hgoes
    refine ⟨[], by rw [following_insert_of_forall_not n hgoes, List.append_nil], fun k => ?_⟩
    exact iff_of_false List.not_mem_nil fun hk => hgoes k hk.2

/-- An insertion into a well-formed tree is an update of the map from operands to positions and gives a well-formed tree:
the operands lead to the position from then on, the position replaced is the one they led to before, and all others
lead to where they did.  No nodes are added but those along the operands.  Each node keeps its children in their order,
and only the kind with which the operands go on there comes to them, at the end. -/
theorem replace_updates (h : n.WellFormed) (p : List OperandKind) (j : Nat) :
    let previous := (n.replace p j).1
    let n' := (n.replace p j).2
    n' = n.insert p j ∧ n'.WellFormed ∧
    (∃ m, n'.walk? p = some m ∧ m.form = some j) ∧
    previous = (n.walk? p).bind form ∧
    (∀ q, q ≠ p → (n'.walk? q).bind form = (n.walk? q).bind form) ∧
    (∀ q, (∃ m', n'.Path q m') ↔ q <+: p ∨ ∃ m, n.Path q m) ∧
    ∀ q m, n.Path q m → ∃ m' added, n'.Path q m' ∧ m'.children.map (·.1) = m.children.map (·.1) ++ added ∧
      ∀ k, k ∈ added ↔ k ∉ m.children.map (·.1) ∧ q ++ [k] <+: p := by
  intro previous n'
  have hn' : n' = n.insert p j := congrArg Prod.snd (replace_eq n p j)
  have hwf : n'.WellFormed := h.replace p j
  have hfind : ∀ q, n'.find? q = if q = p then some j else n.find? q := by
    rw [hn']
    exact fun q => find?_insert n p q j
  have hpath : ∀ q, (∃ m', n'.Path q m') ↔ q <+: p ∨ ∃ m, n.Path q m := by
    intro q
    simp only [← hwf.walk?_eq_some_iff, ← h.walk?_eq_some_iff]
    rw [hn']
    exact exists_walk?_insert_iff n p q j
  refine ⟨hn', hwf, ?_, congrArg Prod.fst (replace_eq n p j), fun q hq => ?_, hpath, fun q m hm => ?_⟩
  · exact Option.bind_eq_some_iff.1 ((hfind p).trans (if_pos rfl))
  · exact (hfind q).trans (if_neg hq)
  · obtain ⟨m', hm'⟩ := (hpath q).2 (.inr ⟨m, hm⟩)
    obtain ⟨added, hadded, hmem⟩ := following_insert n p q j
    rw [← hn', following, hwf.walk?_eq_some_iff.2 hm', following, h.walk?_eq_some_iff.2 hm] at hadded
    rw [following, h.walk?_eq_some_iff.2 hm] at hmem
    exact ⟨m', added, hm', hadded, hmem⟩

/-- The operands branch off from others at a node that holds a position. -/
theorem replace_updates_shared_prefix :
    let n := ((empty.insert [.intType, .intNum] 0).insert [.intReg] 1).insert [.intType] 2
    let n' := (n.replace [.intType, .regOffset] 3).2
    n.WellFormed ∧ (∃ m, n.Path [.intType] m ∧ m.children.map (·.1) = [.intNum]) ∧ n'.WellFormed ∧
      (∃ m, n'.walk? [.intType, .regOffset] = some m ∧ m.form = some 3) ∧
      (n.replace [.intType, .regOffset] 3).1 = none ∧ (n'.walk? [.intType]).bind form = some 2 ∧
      (n'.walk? [.intType, .intNum]).bind form = some 0 ∧ (¬ ∃ m, n'.Path [.intReg, .regOffset] m) ∧
      ∃ m added, n'.Path [.intType] m ∧ m.children.map (·.1) = .intNum :: added ∧ ∀ k, k ∈ added ↔ k = .regOffset := by
  intro n n'
  have h : n.WellFormed := ((wellFormed_empty.insert _ _).insert _ _).insert _ _
  have hm : n.Path [.intType] ⟨some 2, [(.intNum, ⟨some 0, []⟩)]⟩ := path_of_walk? rfl
  have hnone : ¬ ∃ m, n.Path [.intReg, .regOffset] m := by
    simp only [← h.walk?_eq_some_iff]
    exact fun hwalk => nomatch hwalk
  obtain ⟨-, hwf, hwalk, hprevious, helsewhere, hpath, hchildren⟩ := replace_updates h [.intType, .regOffset] 3
  refine ⟨h, ⟨_, hm, rfl⟩, hwf, hwalk, hprevious, helsewhere _ (by decide), helsewhere _ (by decide), ?_, ?_⟩
  · rw [hpath]
    exact not_or.2 ⟨by decide, hnone⟩
  · obtain ⟨m, added, hm', hadded, hmem⟩ := hchildren _ _ hm
    refine ⟨m, added, hm', hadded, fun k => ?_⟩
    rw [hmem]
    constructor
    · rintro ⟨-, hk⟩
      simpa using hk
    · rintro rfl
      decide

end Signature.Node

namespace SignatureTrees

/-- The signature trees of all tables are well formed. -/
theorem wellFormed_of_mem_roots {t : Tables} {n : Signature.Node} (h : n ∈ (ofTables t).roots) : n.WellFormed := by
  obtain ⟨i, hi⟩ := List.mem_iff_getElem?.1 h
  rw [getElem?_roots] at hi
  obtain ⟨fs, -, rfl⟩ := Option.map_eq_some_iff.1 hi
  exact Signature.Node.wellFormed_empty.insertAll 0 fs

end SignatureTrees

end OpcodeTables
