import Mathlib.Data.List.Basic
import OpcodeTables.Tables

/-!
# Tables that belong together

Verifying tables succeeds exactly if they are aligned (`Tables.verify_eq_ok_iff`): the index and the forms are equally
many, every entry of the index has its position, and the flags of every form say whether it has variants.  An index of
bytes that are positions has at most 256 entries (`Tables.Aligned.length_index_le`).
-/

namespace OpcodeTables.Tables

theorem Form.isConsistent_iff {f : Form} : f.isConsistent ↔ f.flags.typeVariants = !f.variants.isEmpty :=
  decide_eq_true_iff

/-- The index and the forms belong together. -/
structure Aligned (t : Tables) : Prop where
  length_eq : t.index.length = t.instructions.length
  index_eq : ∀ (i : Nat) (e : IndexEntry), t.index[i]? = some e → e.index.toNat = i
  consistent : ∀ fs ∈ t.instructions, ∀ f ∈ fs, f.isConsistent

theorem misplaced?_eq_none_iff {i : Nat} {es : List IndexEntry} :
    misplaced? i es = none ↔ ∀ (k : Nat) (e : IndexEntry), es[k]? = some e → e.index.toNat = i + k := by
  induction es generalizing i with
  | nil => simp [misplaced?]
  | cons e es ih =>
    rw [misplaced?]
    constructor
    · intro h k e' he'
      split at h
      · rename_i he
        cases k with
        | zero =>
          cases he'
          exact he
        | succ k =>
          have := ih.1 h k e' he'
          omega
      · cases h
    · intro h
      have he : e.index.toNat = i := h 0 e rfl
      rw [if_pos he, ih]
      intro k e' he'
      have := h (k + 1) e' he'
      omega

theorem inconsistent?_eq_none_iff {instruction : String} {j : Nat} {fs : List Form} :
    inconsistent? instruction j fs = none ↔ ∀ f ∈ fs, f.isConsistent := by
  induction fs generalizing j with
  | nil => simp [inconsistent?]
  | cons f fs ih =>
    rw [inconsistent?, List.forall_mem_cons, ← ih (j := j + 1)]
    by_cases hf : f.isConsistent
    · rw [if_pos hf, and_iff_right hf]
    · simp [hf]

/-- Tables are verified exactly if they are aligned. -/
theorem verify_eq_ok_iff {t : Tables} : t.verify = .ok () ↔ t.Aligned := by
  have hverify : t.verify = .ok () ↔ t.breach? = none := by
    rw [verify]
    cases t.breach? <;> simp
  rw [hverify, breach?]
  split
  · rename_i hlength
    constructor
    · intro h
      cases h
    · intro h
      exact absurd h.length_eq hlength
  · rename_i hlength
    have hlength : t.index.length = t.instructions.length := not_not.1 hlength
    -- with equal lengths every instruction has an entry to report it under
    have hsnd : (t.index.zip t.instructions).map Prod.snd = t.instructions :=
      List.map_snd_zip (by omega)
    rw [Option.or_eq_none_iff, misplaced?_eq_none_iff, List.findSome?_eq_none_iff]
    simp only [inconsistent?_eq_none_iff, Nat.zero_add]
    constructor
    · rintro ⟨hindex, hforms⟩
      refine ⟨hlength, hindex, fun fs hfs => ?_⟩
      rw [← hsnd] at hfs
      obtain ⟨e, he, rfl⟩ := List.mem_map.1 hfs
      exact hforms e he
    · intro h
      refine ⟨h.index_eq, fun e he => h.consistent e.2 ?_⟩
      rw [← hsnd]
      exact List.mem_map_of_mem he

theorem Aligned.length_index_le {t : Tables} (h : t.Aligned) : t.index.length ≤ 256 := by
  by_contra hlong
  have hlast : 256 < t.index.length := by omega
  -- no byte is the position after the first 256 entries
  have hindex := h.index_eq 256 _ (List.getElem?_eq_getElem hlast)
  have := t.index[256].index.toNat_lt
  omega

end OpcodeTables.Tables
