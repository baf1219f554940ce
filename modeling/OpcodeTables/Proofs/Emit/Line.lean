import OpcodeTables.Emit.Line
import OpcodeTables.Proofs.Opcode

/-!
# Reading lines back

Lines whose texts are proper can be told from their text: two lists of such lines with the same text are the same
(`render_inj`).  A way of writing is prefix-free if what follows cannot be taken for a part of what is written
(`PrefixFree`); then lists are told apart by what is written for their elements (`PrefixFree.flatMap_inj`).
-/

namespace OpcodeTables.Emit

variable {α β : Type}

/-! ### Where a part ends -/

/-- Two parts that go on as long as their elements have a property end at the same place. -/
theorem append_cons_inj {p : α → Prop} {l m r s : List α} {a b : α} (hl : ∀ x ∈ l, p x) (hm : ∀ x ∈ m, p x)
    (ha : ¬ p a) (hb : ¬ p b) (h : l ++ a :: r = m ++ b :: s) : l = m ∧ a = b ∧ r = s := by
  induction l generalizing m with
  | nil =>
    cases m with
    | nil =>
      rw [List.nil_append, List.nil_append, List.cons.injEq] at h
      exact ⟨rfl, h⟩
    | cons y m =>
      rw [List.nil_append, List.cons_append, List.cons.injEq] at h
      rw [h.1] at ha
      exact absurd (hm y List.mem_cons_self) ha
  | cons x l ih =>
    cases m with
    | nil =>
      rw [List.nil_append, List.cons_append, List.cons.injEq] at h
      rw [← h.1] at hb
      exact absurd (hl x List.mem_cons_self) hb
    | cons y m =>
      rw [List.cons_append, List.cons_append, List.cons.injEq] at h
      obtain ⟨rfl, htail⟩ := h
      obtain ⟨rfl, hend⟩ := ih (List.forall_mem_cons.1 hl).2 (List.forall_mem_cons.1 hm).2 htail
      exact ⟨rfl, hend⟩

/-- Two parts without a character end where it comes first. -/
theorem append_char_inj {c : Char} {l m r s : List Char} (hl : c ∉ l) (hm : c ∉ m) (h : l ++ c :: r = m ++ c :: s) :
    l = m ∧ r = s := by
  have hne : ∀ {w : List Char}, c ∉ w → ∀ d ∈ w, d ≠ c := by
    rintro w hw d hd rfl
    exact hw hd
  obtain ⟨rfl, -, rfl⟩ := append_cons_inj (hne hl) (hne hm) (not_not.2 rfl) (not_not.2 rfl) h
  exact ⟨rfl, rfl⟩

/-! ### Prefix-free writing -/

/-- What is written for two things is the same only if they are the same, whatever follows it. -/
def PrefixFree (P : α → Prop) (f : α → List β) : Prop :=
  ∀ ⦃a b : α⦄, P a → P b → ∀ ⦃r s : List β⦄, f a ++ r = f b ++ s → a = b ∧ r = s

theorem PrefixFree.flatMap_inj {P : α → Prop} {f : α → List β} (hf : PrefixFree P f) (hne : ∀ a, f a ≠ [])
    {l m : List α} (hl : ∀ a ∈ l, P a) (hm : ∀ a ∈ m, P a) (h : l.flatMap f = m.flatMap f) : l = m := by
  induction l generalizing m with
  | nil =>
    cases m with
    | nil => rfl
    | cons b m =>
      rw [List.flatMap_nil, List.flatMap_cons, eq_comm, List.append_eq_nil_iff] at h
      exact absurd h.1 (hne b)
  | cons a l ih =>
    obtain ⟨ha, has⟩ := List.forall_mem_cons.1 hl
    cases m with
    | nil =>
      rw [List.flatMap_nil, List.flatMap_cons, List.append_eq_nil_iff] at h
      exact absurd h.1 (hne a)
    | cons b m =>
      obtain ⟨hb, hbs⟩ := List.forall_mem_cons.1 hm
      rw [List.flatMap_cons, List.flatMap_cons] at h
      obtain ⟨rfl, hrest⟩ := hf ha hb h
      rw [ih has hbs hrest]

/-- Lists are told apart by what is written for their elements, one line for each. -/
theorem map_inj_of_mem {P : α → Prop} {f : α → β} (hf : ∀ a b, P a → P b → f a = f b → a = b) {l m : List α}
    (hl : ∀ a ∈ l, P a) (hm : ∀ a ∈ m, P a) (h : l.map f = m.map f) : l = m := by
  have hfree : PrefixFree P fun a => [f a] := by
    intro a b ha hb r s hab
    rw [List.singleton_append, List.singleton_append, List.cons.injEq] at hab
    exact ⟨hf a b ha hb hab.1, hab.2⟩
  rw [List.map_eq_flatMap, List.map_eq_flatMap] at h
  exact hfree.flatMap_inj (fun _ => List.cons_ne_nil _ _) hl hm h

/-! ### Lines -/

/-- The text of the line has no line break, and does not begin with a blank that would be taken for indentation. -/
structure Line.Proper (l : Line) : Prop where
  unbroken : '\n' ∉ l.text.toList
  head : l.text.toList.head? ≠ some ' '

theorem prefixFree_chars : PrefixFree Line.Proper Line.chars := by
  intro l m hl hm r s h
  -- the text with its line break, which begins with something else than a space
  have hsplit : ∀ {l : Line} (r : List Char), l.Proper → ∃ c cs, l.text.toList ++ '\n' :: r = c :: cs ∧ c ≠ ' ' := by
    intro l r hl
    cases ht : l.text.toList with
    | nil => exact ⟨'\n', r, rfl, by decide⟩
    | cons c cs =>
      refine ⟨c, cs ++ '\n' :: r, rfl, ?_⟩
      rintro rfl
      exact hl.head (by rw [ht]; rfl)
  have hspaces : ∀ (n : Nat), ∀ c ∈ List.replicate n ' ', c = ' ' := fun n c hc => List.eq_of_mem_replicate hc
  obtain ⟨c, cs, hc, hcne⟩ := hsplit r hl
  obtain ⟨d, ds, hd, hdne⟩ := hsplit s hm
  simp only [Line.chars, List.append_assoc, List.cons_append, List.nil_append] at h
  rw [hc, hd] at h
  obtain ⟨hdepth, hfirst, hrest⟩ := append_cons_inj (hspaces _) (hspaces _) hcne hdne h
  have hdepth := congrArg List.length hdepth
  rw [List.length_replicate, List.length_replicate] at hdepth
  have htexts : l.text.toList ++ '\n' :: r = m.text.toList ++ '\n' :: s := by rw [hc, hd, hfirst, hrest]
  obtain ⟨htext, rfl⟩ := append_char_inj hl.unbroken hm.unbroken htexts
  obtain ⟨depth, text⟩ := l
  obtain ⟨depth', text'⟩ := m
  obtain rfl : depth = depth' := Nat.eq_of_mul_eq_mul_left (by decide) hdepth
  obtain rfl : text = text' := String.toList_inj.1 htext
  exact ⟨rfl, rfl⟩

/-- Proper lines are told from their text. -/
theorem render_inj {ls ms : List Line} (hls : ∀ l ∈ ls, l.Proper) (hms : ∀ l ∈ ms, l.Proper)
    (h : render ls = render ms) : ls = ms := by
  have hne : ∀ l : Line, l.chars ≠ [] := by
    intro l
    rw [Line.chars]
    exact List.append_ne_nil_of_right_ne_nil _ (List.cons_ne_nil _ _)
  exact prefixFree_chars.flatMap_inj hne hls hms (String.ofList_injective h)

end OpcodeTables.Emit
