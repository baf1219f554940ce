import OpcodeTables.Path

/-!
# File names

A slash separates the segments of a path and stands in none of them (`segments_append_slash`,
`slash_not_mem_of_mem_segments`). A file beside a path has the name that was asked for (`fileName?_sibling`).
-/

namespace OpcodeTables.Path

/-- A text that can name an entry of a directory. -/
structure IsName (s : String) : Prop where
  slash_not_mem : '/' ∉ s.toList
  ne_empty : s.toList ≠ []
  ne_here : s.toList ≠ ['.']
  ne_up : s.toList ≠ ['.', '.']

instance (s : String) : Decidable (IsName s) :=
  decidable_of_iff ('/' ∉ s.toList ∧ s.toList ≠ [] ∧ s.toList ≠ ['.'] ∧ s.toList ≠ ['.', '.'])
    ⟨fun ⟨hslash, hempty, hhere, hup⟩ => ⟨hslash, hempty, hhere, hup⟩,
      fun h => ⟨h.slash_not_mem, h.ne_empty, h.ne_here, h.ne_up⟩⟩

/-! ### Segments -/

theorem segments_ne_nil (cs : List Char) : segments cs ≠ [] := by
  fun_cases segments cs <;> simp

theorem segments_cons {c : Char} (hc : c ≠ '/') (cs : List Char) :
    ∃ s ss, segments cs = s :: ss ∧ segments (c :: cs) = (c :: s) :: ss := by
  obtain ⟨s, ss, hs⟩ := List.exists_cons_of_ne_nil (segments_ne_nil cs)
  exact ⟨s, ss, hs, by rw [segments, hs]; exact hc⟩

theorem segments_append_slash (as bs : List Char) : segments (as ++ '/' :: bs) = segments as ++ segments bs := by
  induction as with
  | nil => rfl
  | cons a as ih =>
    by_cases ha : a = '/'
    · subst ha
      exact congrArg ([] :: ·) ih
    · obtain ⟨s, ss, hs, hcons⟩ := segments_cons ha as
      obtain ⟨t, ts, ht, hcons'⟩ := segments_cons ha (as ++ '/' :: bs)
      rw [ih, hs, List.cons_append, List.cons.injEq] at ht
      rw [List.cons_append, hcons', hcons, ← ht.1, ← ht.2, List.cons_append]

theorem segments_of_slash_not_mem {cs : List Char} (h : '/' ∉ cs) : segments cs = [cs] := by
  induction cs with
  | nil => rfl
  | cons c cs ih =>
    simp only [List.mem_cons, not_or] at h
    obtain ⟨s, ss, hs, hcons⟩ := segments_cons (Ne.symm h.1) cs
    rw [ih h.2, List.cons.injEq] at hs
    rw [hcons, ← hs.1, ← hs.2]

theorem slash_not_mem_of_mem_segments {cs s : List Char} (h : s ∈ segments cs) : '/' ∉ s := by
  induction cs generalizing s with
  | nil => simp_all [segments]
  | cons c cs ih =>
    by_cases hc : c = '/'
    · subst hc
      rcases List.mem_cons.1 (show s ∈ [] :: segments cs from h) with rfl | h
      · exact List.not_mem_nil
      · exact ih h
    · obtain ⟨t, ts, ht, hcons⟩ := segments_cons hc cs
      rw [hcons] at h
      rcases List.mem_cons.1 h with rfl | h
      · have := ih (s := t) (by simp [ht])
        simp [Ne.symm hc, this]
      · exact ih (by simp [ht, h])

theorem segments_intercalate {ss : List (List Char)} (hne : ss ≠ []) (h : ∀ s ∈ ss, '/' ∉ s) :
    segments (['/'].intercalate ss) = ss := by
  induction ss with
  | nil => exact absurd rfl hne
  | cons s ss ih =>
    obtain ⟨hs, hss⟩ := List.forall_mem_cons.1 h
    cases ss with
    | nil => rw [List.intercalate_singleton, segments_of_slash_not_mem hs]
    | cons t ts =>
      rw [List.intercalate_cons_cons, List.append_assoc, List.singleton_append, segments_append_slash,
        segments_of_slash_not_mem hs, ih (List.cons_ne_nil t ts) hss]
      rfl

/-- An empty segment at the end comes from a slash there. -/
theorem getLast?_of_segments {cs : List Char} (h : (segments cs).getLast? = some []) :
    cs = [] ∨ cs.getLast? = some '/' := by
  induction cs with
  | nil => exact .inl rfl
  | cons c cs ih =>
    right
    by_cases hc : c = '/'
    · subst hc
      rw [segments, List.getLast?_cons_of_ne_nil (segments_ne_nil cs)] at h
      rcases ih h with rfl | hlast
      · rfl
      · rw [List.getLast?_cons, hlast, Option.getD_some]
    · obtain ⟨s, ss, hs, hcons⟩ := segments_cons hc cs
      rw [hcons] at h
      rw [hs] at ih
      cases ss with
      | nil => simp at h
      | cons t ts =>
        rw [List.getLast?_cons_cons] at h ih
        rcases ih h with rfl | hlast
        · cases hs
        · rw [List.getLast?_cons, hlast, Option.getD_some]

/-! ### Names -/

/-- What stands before the components of the segments is no name. -/
private theorem components_eq (p : String) :
    ∃ front, (∀ n, .name n ∉ front) ∧ components p = front ++ componentsOf (segments p.toList) := by
  unfold components
  dsimp only
  split
  · exact ⟨[.root], by simp, rfl⟩
  · split
    · exact ⟨[.here], by simp, rfl⟩
    · exact ⟨[], by simp, rfl⟩

theorem fileName?_eq_some_iff {p n : String} : fileName? p = some n ↔ (components p).getLast? = some (.name n) := by
  unfold fileName?
  split
  · rename_i h
    simp [h]
  · rename_i h
    exact ⟨fun hn => by simp at hn, fun hn => absurd hn (h n)⟩

/-- A path's file name is one of its segments. -/
theorem isName_of_fileName? {p n : String} (h : fileName? p = some n) : IsName n := by
  obtain ⟨front, hfront, hp⟩ := components_eq p
  have hmem := List.mem_of_getLast? (fileName?_eq_some_iff.1 h)
  rw [hp, List.mem_append, or_iff_right (hfront n), componentsOf, List.mem_filterMap] at hmem
  obtain ⟨s, hs, hn⟩ := hmem
  split at hn
  · cases hn
  · rename_i hdot
    split at hn
    · cases hn
    · rename_i hup
      simp only [Option.some.injEq, Component.name.injEq] at hn
      subst hn
      rw [not_or] at hdot
      exact ⟨by simpa using slash_not_mem_of_mem_segments hs, by simpa using hdot.1, by simpa using hdot.2,
        by simpa using hup⟩

/-- After the segment of the file name there are only such as make no difference. -/
theorem exists_segments_of_fileName? {p n : String} (h : fileName? p = some n) :
    ∃ ss rest, segments p.toList = ss ++ n.toList :: rest ∧ ∀ s ∈ rest, s = [] ∨ s = ['.'] := by
  obtain ⟨front, hfront, hp⟩ := components_eq p
  have hlast := fileName?_eq_some_iff.1 h
  have hof : (componentsOf (segments p.toList)).getLast? = some (.name n) := by
    rw [hp, List.getLast?_append] at hlast
    cases hof : (componentsOf (segments p.toList)).getLast? with
    | none =>
      rw [hof, Option.none_or] at hlast
      exact absurd (List.mem_of_getLast? hlast) (hfront n)
    | some c =>
      rw [hof, Option.some_or] at hlast
      exact hlast
  rw [componentsOf, List.getLast?_filterMap] at hof
  obtain ⟨rest, s, ss, hsegments, hs, hrest⟩ := List.findSome?_eq_some_iff.1 hof
  have hname : s = n.toList := by
    split at hs
    · cases hs
    · split at hs
      · cases hs
      · cases hs
        exact String.toList_ofList.symm
  refine ⟨ss.reverse, rest.reverse, ?_, fun t ht => ?_⟩
  · rw [← List.reverse_reverse (segments p.toList), hsegments, hname]
    simp
  · have hnone := hrest t (List.mem_reverse.1 ht)
    split at hnone
    · assumption
    · split at hnone
      all_goals cases hnone

/-- A path whose last segment is a name ends with that name. -/
theorem fileName?_of_segments {p n : String} (ss : List (List Char)) (hn : IsName n)
    (h : segments p.toList = ss ++ [n.toList]) : fileName? p = some n := by
  obtain ⟨front, -, hp⟩ := components_eq p
  have hlast : componentsOf [n.toList] = [.name n] := by
    simp [componentsOf, hn.ne_empty, hn.ne_here, hn.ne_up]
  have hsplit : componentsOf (ss ++ [n.toList]) = componentsOf ss ++ componentsOf [n.toList] :=
    List.filterMap_append
  rw [fileName?_eq_some_iff, hp, h, hsplit, hlast, ← List.append_assoc, List.getLast?_concat]

theorem fileName?_sibling (p : String) {n : String} (hn : IsName n) : fileName? (sibling p n) = some n := by
  have hsegments := segments_of_slash_not_mem hn.slash_not_mem
  unfold sibling
  generalize (if (fileName? p).isSome then (parents p).headD "" else p) = directory
  dsimp only
  split
  · rename_i h
    by_cases hempty : directory = ""
    · subst hempty
      exact fileName?_of_segments [] hn (by simpa using hsegments)
    · -- the slash before the name is the last character of the directory
      obtain ⟨d, hd⟩ := List.getLast?_eq_some_iff.1 (h.resolve_left hempty)
      refine fileName?_of_segments (segments d) hn ?_
      rw [String.toList_append, hd, List.append_assoc, List.singleton_append, segments_append_slash, hsegments]
  · refine fileName?_of_segments (segments directory.toList) hn ?_
    rw [String.toList_append, String.toList_append, List.append_assoc, show "/".toList = ['/'] from rfl,
      List.singleton_append, segments_append_slash, hsegments]

end OpcodeTables.Path
