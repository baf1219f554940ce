import OpcodeTables.Proofs.Integer

/-!
# The grammar of symbols

A text is split at its pairs of colons, and its parts are joined to the text again (`intercalate_parts`); parts without
colons that are joined are split as they were (`parts_intercalate`).  So a text is a symbol exactly if it is made of
identifiers joined by `::` (`isSymbol_iff`).  No number is a symbol: it begins with a digit
(`Integer.read?_eq_none_of_isQualified`).
-/

namespace OpcodeTables.Symbol

/-- A letter or an underscore, and any letters, digits and underscores after it, all of them ASCII. -/
def IsIdentifier (p : List Char) : Prop :=
  ∃ c cs, p = c :: cs ∧ (c.isAlpha ∨ c = '_') ∧ ∀ d ∈ cs, d.isAlphanum ∨ d = '_'

/-- One or more identifiers joined by `::`. -/
def IsQualified (s : List Char) : Prop :=
  ∃ ps, ps ≠ [] ∧ (∀ p ∈ ps, IsIdentifier p) ∧ s = [':', ':'].intercalate ps

/-! ### Splitting and joining -/

theorem parts_ne_nil (s : List Char) : parts s ≠ [] := by
  induction s using parts.induct with
  | case1 => simp [parts]
  | case2 s ih => simp [parts]
  | case3 c s hs hn ih => exact absurd hn ih
  | case4 c s hs p ps hp ih => simp [parts.eq_3 c s hs, hp]

/-- A character that does not begin a pair of colons belongs to the first part. -/
theorem exists_parts_cons {c : Char} {s : List Char} (h : ∀ s', c = ':' → s ≠ ':' :: s') :
    ∃ p ps, parts s = p :: ps ∧ parts (c :: s) = (c :: p) :: ps := by
  obtain ⟨p, ps, hp⟩ := List.exists_cons_of_ne_nil (parts_ne_nil s)
  refine ⟨p, ps, hp, ?_⟩
  rw [parts.eq_3 c s h, hp]

theorem intercalate_parts (s : List Char) : [':', ':'].intercalate (parts s) = s := by
  induction s using parts.induct with
  | case1 => rfl
  | case2 s ih =>
    obtain ⟨p, ps, hp⟩ := List.exists_cons_of_ne_nil (parts_ne_nil s)
    rw [hp] at ih
    rw [parts, hp, List.intercalate_cons_cons, ih]
    rfl
  | case3 c s hs hn ih => exact absurd hn (parts_ne_nil s)
  | case4 c s hs p ps hp ih =>
    rw [parts.eq_3 c s hs, hp]
    rw [hp] at ih
    -- the character stands in front of what the parts of the rest give
    cases ps with
    | nil =>
      rw [List.intercalate_singleton] at ih ⊢
      rw [ih]
    | cons q qs =>
      rw [List.intercalate_cons_cons] at ih ⊢
      rw [List.cons_append, List.cons_append, ih]

theorem parts_of_not_mem {p : List Char} (h : ':' ∉ p) : parts p = [p] := by
  induction p with
  | nil => rfl
  | cons c p ih =>
    rw [List.mem_cons, not_or] at h
    obtain ⟨q, qs, hq, hparts⟩ := exists_parts_cons (s := p) fun _ hc => absurd hc.symm h.1
    rw [ih h.2, List.cons.injEq] at hq
    rw [hparts, ← hq.1, ← hq.2]

theorem parts_append {p : List Char} (h : ':' ∉ p) (s : List Char) : parts (p ++ ':' :: ':' :: s) = p :: parts s := by
  induction p with
  | nil => rfl
  | cons c p ih =>
    rw [List.mem_cons, not_or] at h
    obtain ⟨q, qs, hq, hparts⟩ := exists_parts_cons (s := p ++ ':' :: ':' :: s) fun _ hc => absurd hc.symm h.1
    rw [ih h.2, List.cons.injEq] at hq
    rw [List.cons_append, hparts, ← hq.1, ← hq.2]

theorem parts_intercalate {ps : List (List Char)} (hne : ps ≠ []) (h : ∀ p ∈ ps, ':' ∉ p) :
    parts ([':', ':'].intercalate ps) = ps := by
  induction ps with
  | nil => exact absurd rfl hne
  | cons p ps ih =>
    obtain ⟨hp, hps⟩ := List.forall_mem_cons.1 h
    cases ps with
    | nil => rw [List.intercalate_singleton, parts_of_not_mem hp]
    | cons q qs =>
      rw [List.intercalate_cons_cons, List.append_assoc]
      have hrest := parts_append hp ([':', ':'].intercalate (q :: qs))
      rw [ih (List.cons_ne_nil q qs) hps] at hrest
      exact hrest

/-! ### Identifiers -/

theorem isAlpha_iff {c : Char} :
    c.isAlpha ↔ (0x41 ≤ c.toNat ∧ c.toNat ≤ 0x5A) ∨ (0x61 ≤ c.toNat ∧ c.toNat ≤ 0x7A) := by
  have h : c.isAlpha = (decide (0x41 ≤ c.val ∧ c.val ≤ 0x5A) || (0x61 ≤ c.val && c.val ≤ 0x7A)) := rfl
  simp only [h, Bool.or_eq_true, Bool.and_eq_true, decide_eq_true_eq, UInt32.le_iff_toNat_le, Char.toNat_val]
  rfl

theorem not_isDigit {c : Char} (h : c.isAlpha ∨ c = '_') : ¬ c.isDigit := by
  rcases h with h | rfl
  · rw [isAlpha_iff] at h
    rw [Char.isDigit_iff_toNat]
    have hnine : '9'.toNat = 0x39 := rfl
    omega
  · decide

theorem isIdentifier_iff {p : List Char} : isIdentifier p ↔ IsIdentifier p := by
  cases p with
  | nil => simp [isIdentifier, IsIdentifier]
  | cons c cs => simp [isIdentifier, IsIdentifier, isHead, isTail]

theorem IsIdentifier.colon_not_mem {p : List Char} (h : IsIdentifier p) : ':' ∉ p := by
  obtain ⟨c, cs, rfl, hc, hcs⟩ := h
  rw [List.mem_cons, not_or]
  constructor
  · rintro rfl
    revert hc
    decide
  · intro hm
    have hm := hcs ':' hm
    revert hm
    decide

/-- A text is a symbol exactly if it is made of identifiers joined by `::`. -/
theorem isSymbol_iff {s : String} : isSymbol s ↔ IsQualified s.toList := by
  rw [isSymbol, List.all_eq_true]
  simp only [isIdentifier_iff]
  constructor
  · intro h
    exact ⟨parts s.toList, parts_ne_nil _, h, (intercalate_parts _).symm⟩
  · rintro ⟨ps, hne, hps, hs⟩ p hp
    rw [hs, parts_intercalate hne fun q hq => (hps q hq).colon_not_mem] at hp
    exact hps p hp

theorem IsQualified.exists_cons {s : List Char} (h : IsQualified s) : ∃ c cs, s = c :: cs ∧ (c.isAlpha ∨ c = '_') := by
  obtain ⟨ps, hne, hps, rfl⟩ := h
  obtain ⟨p, ps, rfl⟩ := List.exists_cons_of_ne_nil hne
  obtain ⟨c, cs, rfl, hc, -⟩ := (List.forall_mem_cons.1 hps).1
  cases ps with
  | nil => exact ⟨c, cs, List.intercalate_singleton, hc⟩
  | cons q qs => exact ⟨c, _, List.intercalate_cons_cons, hc⟩

end OpcodeTables.Symbol

namespace OpcodeTables.Integer

/-- A number begins with a digit. -/
theorem exists_isDigit_cons_of_read? {s : List Char} {n : Nat} (h : read? s = some n) :
    ∃ c cs, s = c :: cs ∧ c.isDigit := by
  have hdecimal : ∀ {c d}, IsDigit 10 c d → c.isDigit := fun hd =>
    isDigit_of_digit? (by decide) ((digit?_eq_some_iff (by decide)).2 hd)
  obtain ⟨hdenotes, -⟩ := read?_eq_some_iff_denotes.1 h
  cases hdenotes with
  | decimal hds =>
    cases hds with
    | last hd => exact ⟨_, _, rfl, hdecimal hd⟩
    | cons hd => exact ⟨_, _, rfl, hdecimal hd⟩
  | prefixed => exact ⟨'0', _, rfl, by decide⟩

/-- Identifiers joined by `::` are no number. -/
theorem read?_eq_none_of_isQualified {s : List Char} (h : Symbol.IsQualified s) : read? s = none := by
  rw [Option.eq_none_iff_forall_ne_some]
  intro n hn
  obtain ⟨c, cs, rfl, hc⟩ := h.exists_cons
  obtain ⟨d, ds, hd, hdigit⟩ := exists_isDigit_cons_of_read? hn
  rw [(List.cons.inj hd).1] at hc
  exact Symbol.not_isDigit hc hdigit

end OpcodeTables.Integer
