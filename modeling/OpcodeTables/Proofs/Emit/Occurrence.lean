import Mathlib.Data.List.Basic
import OpcodeTables.Proofs.Emit.Line

/-!
# Texts that occur once

A text that occurs once in another one (`OccursOnce`) is replaced there and nowhere else (`OccursOnce.replaceAll_eq`).
In the text of lines, a text without line breaks occurs within a line (`exists_line_of_prefix`), so all of a line occurs
once if it is not part of another one (`occursOnce_line`).
-/

namespace OpcodeTables.Emit

variable {p q s before after : List Char}

/-! ### Occurrences -/

/-- There is one place where the text occurs. -/
def OccursOnce (p s : List Char) : Prop :=
  ∃! before, before ++ p <+: s

/-- Replaces a text that is not empty wherever it occurs, from left to right; what was replaced is no part of another
occurrence. -/
def replaceAll (p new : List Char) : List Char → List Char
  | [] => []
  | c :: s => if p <+: c :: s then new ++ replaceAll p new (s.drop (p.length - 1)) else c :: replaceAll p new s
termination_by s => s.length
decreasing_by all_goals simp only [List.length_drop, List.length_cons]; omega

theorem replaceAll_of_absent {new : List Char} (h : ¬ p <:+: s) : replaceAll p new s = s := by
  induction s with
  | nil => rw [replaceAll]
  | cons c s ih =>
    rw [replaceAll, if_neg fun hp => h hp.isInfix, ih fun hp => h (hp.trans (List.suffix_cons c s).isInfix)]

/-- An occurrence that is the only one is replaced. -/
theorem replaceAll_append {new : List Char} (hp : p ≠ []) (h : ∀ b, b ++ p <+: before ++ (p ++ after) → b = before) :
    replaceAll p new (before ++ (p ++ after)) = before ++ (new ++ after) := by
  induction before with
  | nil =>
    obtain ⟨c, p', rfl⟩ := List.exists_cons_of_ne_nil hp
    have hafter : ¬ c :: p' <:+: after := by
      rintro ⟨b, r, rfl⟩
      have hb := h (c :: p' ++ b) ⟨r, by simp⟩
      cases hb
    rw [List.nil_append, List.nil_append, List.cons_append, replaceAll, ← List.cons_append,
      if_pos (List.prefix_append _ _), List.length_cons, Nat.add_sub_cancel, List.drop_left,
      replaceAll_of_absent hafter]
  | cons c before ih =>
    have hhere : ¬ p <+: c :: before ++ (p ++ after) := by
      intro hstart
      have hb := h [] hstart
      cases hb
    rw [List.cons_append] at hhere
    rw [List.cons_append, replaceAll, if_neg hhere, ih, List.cons_append]
    intro b hb
    exact (List.cons.inj (h (c :: b) ((List.prefix_cons_inj c).2 hb))).2

namespace OccursOnce

theorem replaceAll_eq {new : List Char} (h : OccursOnce p (before ++ (p ++ after))) (hp : p ≠ []) :
    replaceAll p new (before ++ (p ++ after)) = before ++ (new ++ after) := by
  refine replaceAll_append hp fun b hb => h.unique hb ?_
  rw [← List.append_assoc]
  exact List.prefix_append _ _

/-- With what comes after it, a text occurs once too. -/
theorem append (h : OccursOnce p s) (hq : before ++ (p ++ q) <+: s) : OccursOnce (p ++ q) s := by
  refine ⟨before, hq, fun b hb => h.unique ?_ ?_⟩
  · exact ((List.prefix_append_right_inj b).2 (List.prefix_append p q)).trans hb
  · exact ((List.prefix_append_right_inj before).2 (List.prefix_append p q)).trans hq

end OccursOnce

/-! ### Occurrences in lines -/

/-- A text without a character occurs before the character or after it. -/
theorem prefix_append_cons {w r : List Char} {c : Char} (hp : p ≠ []) (hc : c ∉ p) (h : before ++ p <+: w ++ c :: r) :
    before ++ p <+: w ∨ ∃ b, before = w ++ c :: b ∧ b ++ p <+: r := by
  obtain ⟨after, h⟩ := h
  rw [List.append_assoc] at h
  rcases List.append_eq_append_iff.1 h with ⟨u, rfl, hu⟩ | ⟨u, rfl, hu⟩
  · refine .inl ((List.prefix_append_right_inj before).2 ?_)
    rcases List.append_eq_append_iff.1 hu with ⟨v, rfl, -⟩ | ⟨v, rfl, hv⟩
    · exact List.prefix_append p v
    · cases v with
      | nil => exact ⟨[], by rw [List.append_nil, List.append_nil]⟩
      | cons d v =>
        cases hv
        exact absurd (List.mem_append_right u List.mem_cons_self) hc
  · cases u with
    | nil =>
      obtain ⟨d, p', rfl⟩ := List.exists_cons_of_ne_nil hp
      cases hu
      exact absurd List.mem_cons_self hc
    | cons d u =>
      cases hu
      exact .inr ⟨u, rfl, after, List.append_assoc u p after⟩

/-- The characters of a line without its line break. -/
def Line.indented (l : Line) : List Char :=
  List.replicate (4 * l.depth) ' ' ++ l.text.toList

/-- A text without line breaks occurs within a line. -/
theorem exists_line_of_prefix {ls : List Line} (hp : p ≠ []) (hbreak : '\n' ∉ p)
    (h : before ++ p <+: ls.flatMap Line.chars) :
    ∃ ms l ns u, ls = ms ++ l :: ns ∧ before = ms.flatMap Line.chars ++ u ∧ u ++ p <+: l.indented := by
  induction ls generalizing before with
  | nil =>
    rw [List.flatMap_nil, List.prefix_nil, List.append_eq_nil_iff] at h
    exact absurd h.2 hp
  | cons l ls ih =>
    have hchars : (l :: ls).flatMap Line.chars = l.indented ++ '\n' :: ls.flatMap Line.chars := by
      rw [List.flatMap_cons, Line.chars, List.append_assoc _ ['\n'], List.singleton_append, Line.indented]
    rw [hchars] at h
    rcases prefix_append_cons hp hbreak h with hl | ⟨b, rfl, hb⟩
    · exact ⟨[], l, ls, before, rfl, rfl, hl⟩
    · obtain ⟨ms, l', ns, u, rfl, rfl, hu⟩ := ih hb
      refine ⟨l :: ms, l', ns, u, rfl, ?_, hu⟩
      rw [List.flatMap_cons, Line.chars, Line.indented]
      simp

/-- All of a line occurs once if it is not part of another line. -/
theorem occursOnce_line {ms ns : List Line} {l : Line} (hne : l.indented ≠ []) (hbreak : '\n' ∉ l.indented)
    (hothers : ∀ m ∈ ms ++ ns, ¬ l.indented <:+: m.indented) :
    OccursOnce l.indented ((ms ++ l :: ns).flatMap Line.chars) := by
  have hwhole : ∀ {u : List Char}, u ++ l.indented <+: l.indented → u = [] := by
    intro u hu
    have hlen := hu.length_le
    rw [List.length_append] at hlen
    exact List.length_eq_zero_iff.1 (by omega)
  refine ⟨ms.flatMap Line.chars, ⟨'\n' :: ns.flatMap Line.chars, ?_⟩, fun b hb => ?_⟩
  · simp [Line.chars, Line.indented]
  · obtain ⟨ms', m, ns', u, hls, rfl, hu⟩ := exists_line_of_prefix hne hbreak hb
    have hm : m ∉ ms ++ ns := fun hm => hothers m hm ⟨u, hu⟩
    rw [List.mem_append, not_or] at hm
    obtain ⟨rfl, rfl, -⟩ := (List.append_cons_inj_of_notMem hm.1 hm.2).1 hls
    rw [hwhole hu, List.append_nil]

end OpcodeTables.Emit
