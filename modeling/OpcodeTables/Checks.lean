import OpcodeTables.Indexed

/-!
# Checks that succeed

A chain of checks succeeds when each of them does (`bind_eq_ok_iff` and its variants), and so does a traversal: a
property that every step gives holds of all results (`Indexed.forall_of_traverse`), and a view that every step keeps is
kept by the list (`Indexed.map_traverse`).  If the view and the property say what a step gives, they say what the
traversal gives (`Indexed.traverse_eq_ok_iff`).  A list of which no element was seen before is checked element by
element (`fresh_cons`).

A check that fails reports the first of all faults there are (`Reports`): so does a chain of such checks for the faults
of one after those of the other (`Reports.bind`), and a traversal for those of the elements in their order
(`Reports.traverse`).
-/

namespace OpcodeTables

variable {α β γ ε δ : Type}

theorem bind_eq_ok_iff {x : Except ε α} {f : α → Except ε β} {b : β} :
    (x >>= f) = .ok b ↔ ∃ a, x = .ok a ∧ f a = .ok b := by
  cases x with
  | error e => simp [bind, Except.bind]
  | ok a => simp [bind, Except.bind]

theorem map_eq_ok_iff {x : Except ε α} {f : α → β} {b : β} : x.map f = .ok b ↔ ∃ a, x = .ok a ∧ f a = b := by
  cases x <;> simp [Except.map]

theorem mapError_eq_ok_iff {x : Except ε α} {f : ε → δ} {a : α} : x.mapError f = .ok a ↔ x = .ok a := by
  cases x with
  | error e => exact ⟨nofun, nofun⟩
  | ok b => exact ⟨fun h => congrArg _ (Except.ok.inj h), fun h => congrArg _ (Except.ok.inj h)⟩

theorem mapError_eq_error_iff {x : Except ε α} {f : ε → δ} {e : δ} :
    x.mapError f = .error e ↔ ∃ e', x = .error e' ∧ f e' = e := by
  cases x with
  | error e' =>
    constructor
    · intro h
      exact ⟨e', rfl, Except.error.inj h⟩
    · rintro ⟨_, ⟨⟩, rfl⟩
      rfl
  | ok a => exact iff_of_false nofun (by rintro ⟨_, ⟨⟩, _⟩)

theorem toOption_eq_some_iff {x : Except ε α} {a : α} : x.toOption = some a ↔ x = .ok a := by
  cases x <;> simp [Except.toOption]

namespace Indexed

theorem traverse_cons_eq_ok_iff {f : Nat → α → Except ε β} {i : Nat} {a : α} {as : List α} {bs : List β} :
    traverse f i (a :: as) = .ok bs ↔ ∃ b bs', f i a = .ok b ∧ traverse f (i + 1) as = .ok bs' ∧ bs = b :: bs' := by
  rw [traverse]
  cases f i a with
  | error e => simp
  | ok b =>
    constructor
    · intro h
      obtain ⟨bs', ht, rfl⟩ := map_eq_ok_iff.1 h
      exact ⟨b, bs', rfl, ht, rfl⟩
    · rintro ⟨b', bs', hb, ht, rfl⟩
      cases hb
      exact map_eq_ok_iff.2 ⟨bs', ht, rfl⟩

/-- A property that every step gives holds of all results. -/
theorem forall_of_traverse {f : Nat → α → Except ε β} {P : β → Prop} (hf : ∀ i a b, f i a = .ok b → P b) {i : Nat}
    {as : List α} {bs : List β} (h : traverse f i as = .ok bs) : ∀ b ∈ bs, P b := by
  induction as generalizing i bs with
  | nil =>
    cases h
    simp
  | cons a as ih =>
    obtain ⟨b, bs', hb, ht, rfl⟩ := traverse_cons_eq_ok_iff.1 h
    intro c hc
    rcases List.mem_cons.1 hc with rfl | hc
    · exact hf _ _ _ hb
    · exact ih ht c hc

/-- A view of the elements that every step keeps is kept. -/
theorem map_traverse {f : Nat → α → Except ε β} {g : α → γ} {g' : β → γ} (hf : ∀ i a b, f i a = .ok b → g' b = g a)
    {i : Nat} {as : List α} {bs : List β} (h : traverse f i as = .ok bs) : bs.map g' = as.map g := by
  induction as generalizing i bs with
  | nil =>
    cases h
    rfl
  | cons a as ih =>
    obtain ⟨b, bs', hb, ht, rfl⟩ := traverse_cons_eq_ok_iff.1 h
    rw [List.map_cons, List.map_cons, hf _ _ _ hb, ih ht]

/-- Where a view and a property say what a step gives, they say what the traversal gives. -/
theorem traverse_eq_ok_iff {f : Nat → α → Except ε β} {g : β → α} {P : β → Prop}
    (hf : ∀ i a b, f i a = .ok b ↔ g b = a ∧ P b) {i : Nat} {as : List α} {bs : List β} :
    traverse f i as = .ok bs ↔ bs.map g = as ∧ ∀ b ∈ bs, P b := by
  induction as generalizing i bs with
  | nil =>
    constructor
    · intro h
      cases h
      simp
    · rintro ⟨h, -⟩
      rw [List.map_eq_nil_iff.1 h]
      rfl
  | cons a as ih =>
    rw [traverse_cons_eq_ok_iff]
    constructor
    · rintro ⟨b, bs', hb, hbs, rfl⟩
      obtain ⟨rfl, hp⟩ := (hf i a b).1 hb
      obtain ⟨rfl, hps⟩ := ih.1 hbs
      exact ⟨rfl, List.forall_mem_cons.2 ⟨hp, hps⟩⟩
    · rintro ⟨h, hps⟩
      obtain ⟨b, bs', rfl, rfl, rfl⟩ := List.map_eq_cons_iff.1 h
      obtain ⟨hp, hps⟩ := List.forall_mem_cons.1 hps
      exact ⟨b, bs', (hf i _ b).2 ⟨rfl, hp⟩, ih.2 ⟨rfl, hps⟩, rfl⟩

end Indexed

/-! ### Elements not seen before -/

/-- No element was seen before, and none repeats. -/
def Fresh (seen l : List α) : Prop :=
  l.Nodup ∧ ∀ a ∈ l, a ∉ seen

theorem fresh_nil {seen : List α} : Fresh seen [] :=
  ⟨List.nodup_nil, by simp⟩

theorem fresh_cons {seen l : List α} {a : α} : Fresh seen (a :: l) ↔ a ∉ seen ∧ Fresh (a :: seen) l := by
  rw [Fresh, Fresh, List.nodup_cons, List.forall_mem_cons]
  constructor
  · rintro ⟨⟨ha, hl⟩, hseen, hrest⟩
    refine ⟨hseen, hl, fun b hb => ?_⟩
    rw [List.mem_cons, not_or]
    refine ⟨?_, hrest b hb⟩
    rintro rfl
    exact ha hb
  · rintro ⟨hseen, hl, hrest⟩
    refine ⟨⟨fun ha => hrest a ha List.mem_cons_self, hl⟩, hseen, fun b hb hb' => ?_⟩
    exact hrest b hb (List.mem_cons_of_mem a hb')

theorem fresh_iff_nodup {l : List α} : Fresh [] l ↔ l.Nodup :=
  ⟨fun h => h.1, fun h => ⟨h, by simp⟩⟩

/-! ### First faults -/

/-- The check succeeds if there are no faults, and otherwise reports the first one. -/
def Reports (x : Except ε α) : List ε → Prop
  | [] => ∃ a, x = .ok a
  | e :: _ => x = .error e

namespace Reports

variable {x : Except ε α} {es es' : List ε}

theorem exists_ok_iff (h : Reports x es) : (∃ a, x = .ok a) ↔ es = [] := by
  cases es with
  | nil => exact iff_of_true h rfl
  | cons e es =>
    have hx : x = .error e := h
    simp [hx]

theorem eq_error_iff {e : ε} (h : Reports x es) : x = .error e ↔ es.head? = some e := by
  cases es with
  | nil =>
    obtain ⟨a, rfl⟩ := h
    simp
  | cons e' es =>
    have hx : x = .error e' := h
    simp [hx]

theorem bind {f : α → Except ε β} (h : Reports x es) (hf : ∀ a, x = .ok a → Reports (f a) es') :
    Reports (x >>= f) (es ++ es') := by
  cases es with
  | nil =>
    obtain ⟨a, rfl⟩ := h
    exact hf a rfl
  | cons e es =>
    have hx : x = .error e := h
    rw [hx]
    rfl

theorem map {f : α → β} (h : Reports x es) : Reports (x.map f) es := by
  cases es with
  | nil =>
    obtain ⟨a, rfl⟩ := h
    exact ⟨f a, rfl⟩
  | cons e es =>
    have hx : x = .error e := h
    rw [hx]
    rfl

theorem traverse {f : Nat → α → Except ε β} {faults : Nat → α → List ε} (hf : ∀ i a, Reports (f i a) (faults i a))
    (i : Nat) (as : List α) :
    Reports (Indexed.traverse f i as) ((as.zipIdx i).flatMap fun (a, k) => faults k a) := by
  induction as generalizing i with
  | nil => exact ⟨[], rfl⟩
  | cons a as ih =>
    have hstep : Indexed.traverse f i (a :: as) = f i a >>= fun b => (Indexed.traverse f (i + 1) as).map (b :: ·) := by
      rw [Indexed.traverse]
      cases f i a <;> rfl
    rw [hstep, List.zipIdx_cons, List.flatMap_cons]
    exact (hf i a).bind fun b _ => (ih (i + 1)).map

end Reports

end OpcodeTables
