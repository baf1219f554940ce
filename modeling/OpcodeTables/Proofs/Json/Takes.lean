import OpcodeTables.Json.Scalar
import OpcodeTables.Proofs.Json.Written
import Mathlib.Data.List.TakeWhile

/-!
# What a reader takes

A reader takes some bytes as a value if, wherever it finds them, it returns the value and what follows them
(`Reader.Takes`).  Blanks before the bytes do not matter, and what follows must not continue a number.  The readers for
values without parts take any spelling of their values; a reader for lists takes a list of whatever its elements are
taken from (`takes_list`).
-/

namespace OpcodeTables.Json

open Utf8 (ofChars)

/-! ### Blanks -/

def Blank (s : List UInt8) : Prop :=
  ∀ b ∈ s, isBlank b = true

theorem dropBlanks_append {ws : List UInt8} (h : Blank ws) (s : List UInt8) : dropBlanks (ws ++ s) = dropBlanks s :=
  List.dropWhile_append_of_pos h

theorem dropBlanks_eq_nil_iff {s : List UInt8} : dropBlanks s = [] ↔ Blank s :=
  List.dropWhile_eq_nil_iff

theorem blank_nil : Blank [] := by
  simp [Blank]

theorem blank_newline (depth : Nat) : Blank (ofChars (Layout.newline depth)) := by
  have hspaces : ∀ n, Blank (ofChars (List.replicate n ' ')) := by
    intro n
    induction n with
    | zero => exact blank_nil
    | succ n ih =>
      rw [List.replicate_succ, Utf8.ofChars_cons_ascii (by decide)]
      intro b hb
      rcases List.mem_cons.1 hb with rfl | hb
      · decide
      · exact ih b hb
  rw [Layout.newline, Utf8.ofChars_cons_ascii (by decide)]
  intro b hb
  rcases List.mem_cons.1 hb with rfl | hb
  · decide
  · exact hspaces _ b hb

theorem ends_cons {b : UInt8} (h : isDigit b = false ∧ b ≠ point ∧ b ≠ 0x65 ∧ b ≠ 0x45) (s : List UInt8) :
    Ends (b :: s) := by
  intro c hc
  obtain rfl : b = c := by simpa using hc
  exact h

/-- No blank continues a number. -/
theorem ends_append {ws s : List UInt8} (hw : Blank ws) (hs : Ends s) : Ends (ws ++ s) := by
  cases ws with
  | nil => exact hs
  | cons w ws =>
    have hblank : ∀ b, isBlank b = true → isDigit b = false ∧ b ≠ point ∧ b ≠ 0x65 ∧ b ≠ 0x45 := by
      intro b hb
      simp only [isBlank, Bool.or_eq_true, decide_eq_true_eq] at hb
      rcases hb with ((rfl | rfl) | rfl) | rfl
      all_goals decide
    exact ends_cons (hblank w (hw w (by simp))) _

theorem ends_closeList (s : List UInt8) : Ends (closeList :: s) :=
  ends_cons (by decide) s

theorem ends_closeMap (s : List UInt8) : Ends (closeMap :: s) :=
  ends_cons (by decide) s

/-- After a part comes a comma, or what follows all parts. -/
theorem ends_flatMap {α : Type} (f : α → List UInt8) (as : List α) {s : List UInt8} (hs : Ends s) :
    Ends (as.flatMap (fun a => comma :: f a) ++ s) := by
  cases as with
  | nil => exact hs
  | cons a as => exact ends_cons (by decide) _

/-! ### Values without parts -/

/-- The first byte is no blank and does not end a list. -/
def Starts (bs : List UInt8) : Prop :=
  ∃ b t, bs = b :: t ∧ isBlank b = false ∧ b ≠ closeList

theorem Starts.dropBlanks {bs : List UInt8} (h : Starts bs) (s : List UInt8) :
    dropBlanks (bs ++ s) = bs ++ s := by
  obtain ⟨b, t, rfl, hb, -⟩ := h
  exact dropBlanks_cons_of_not hb _

theorem of_isDigit {b : UInt8} (h : isDigit b = true) :
    isBlank b = false ∧ b ≠ closeList ∧ b ≠ quoteMark ∧ words.find? (·.1 = b) = none := by
  have all : ∀ n < 256, isDigit (.ofNat n) = true → isBlank (.ofNat n) = false ∧ .ofNat n ≠ closeList ∧
      .ofNat n ≠ quoteMark ∧ words.find? (·.1 = .ofNat n) = none := by
    decide +kernel
  have hb := all b.toNat b.toNat_lt
  rw [UInt8.ofNat_toNat] at hb
  exact hb h

namespace Leaf

/-- A value without parts is read from the bytes. -/
structure Reads (l : Leaf) (bs : List UInt8) : Prop where
  starts : Starts bs
  readLeaf_eq : ∀ {s}, Ends s → readLeaf (bs ++ s) = .ok (l, s)

theorem reads_text {t : String} {cs : List Char} (h : SpellsText t cs) : (text t).Reads (ofChars cs) := by
  obtain ⟨bs, hbs, hread⟩ := h.readText_eq
  rw [hbs]
  refine ⟨⟨quoteMark, bs, rfl, by decide, by decide⟩, fun {s} _ => ?_⟩
  have hw : words.find? (·.1 = quoteMark) = none := by decide
  rw [List.cons_append]
  simp only [readLeaf, hw, ↓reduceIte, hread, Except.map]

theorem reads_decimal {n : Nat} (hn : n < 2 ^ 64) :
    (number (.natural n)).Reads (ofChars (Text.decimal n).toList) := by
  obtain ⟨d, t, ht, hd⟩ := ofChars_decimal_eq_cons n
  obtain ⟨hblank, hclose, hquote, hwords⟩ := of_isDigit hd
  refine ⟨⟨d, t, ht, hblank, hclose⟩, fun {s} hs => ?_⟩
  have hread := readNumber_decimal hn hs
  rw [ht, List.cons_append] at hread ⊢
  simp only [readLeaf, hwords, hquote, hd, or_true, ↓reduceIte, hread, Except.map]

theorem reads_boolean (b : Bool) : (boolean b).Reads (ofChars (toString b).toList) := by
  cases b with
  | true => exact ⟨⟨0x74, _, rfl, by decide, by decide⟩, fun _ => rfl⟩
  | false => exact ⟨⟨0x66, _, rfl, by decide, by decide⟩, fun _ => rfl⟩

theorem Reads.not_opening {l : Leaf} {b : UInt8} {bs : List UInt8} (h : l.Reads (b :: bs)) :
    b ≠ openList ∧ b ≠ openMap := by
  have hread := h.readLeaf_eq (s := []) (by simp [Ends])
  constructor
  · rintro rfl
    have hfault : readLeaf (openList :: bs ++ []) = .error .expectedValue := rfl
    rw [hfault] at hread
    cases hread
  · rintro rfl
    have hfault : readLeaf (openMap :: bs ++ []) = .error .expectedValue := rfl
    rw [hfault] at hread
    cases hread

end Leaf

/-! ### Taking -/

namespace Reader

/-- The reader takes the bytes `bs` as the value `a`, if `depth` lists and maps may still be opened. -/
structure Takes {α : Type} (r : Reader α) (depth : Nat) (bs : List UInt8) (a : α) : Prop where
  starts : Starts bs
  run_eq : ∀ {room ws s}, depth ≤ room → Blank ws → Ends s → r.run room (ws ++ (bs ++ s)) = .ok (a, s)

namespace Takes

variable {α β : Type} {r : Reader α} {depth : Nat} {bs : List UInt8} {a : α}

theorem mono (h : Takes r depth bs a) {depth' : Nat} (hd : depth ≤ depth') : Takes r depth' bs a :=
  ⟨h.starts, fun hr hw hs => h.run_eq (Nat.le_trans hd hr) hw hs⟩

theorem tryMap (h : Takes r depth bs a) {f : α → Except Fault β} {b : β} (hf : f a = .ok b) :
    Takes (r.tryMap f) depth bs b :=
  ⟨h.starts, fun hr hw hs => by simp [Reader.tryMap, h.run_eq hr hw hs, hf, Except.map]⟩

theorem map (h : Takes r depth bs a) (f : α → β) : Takes (r.map f) depth bs (f a) :=
  h.tryMap rfl

theorem readAll_eq_ok (h : Takes r depth bs a) (hd : depth ≤ maxRoom) {s : List UInt8} (hs : Blank s) :
    r.readAll (bs ++ s) = .ok a := by
  have hends : Ends s := by simpa using ends_append hs (s := []) (by simp [Ends])
  have hrun : r.run maxRoom (bs ++ s) = .ok (a, s) := h.run_eq hd blank_nil hends
  simp [readAll, hrun, dropBlanks_eq_nil_iff.2 hs]

theorem readAll_eq_error (h : Takes r depth bs a) (hd : depth ≤ maxRoom) {s : List UInt8} (hends : Ends s)
    (hs : ¬ Blank s) : r.readAll (bs ++ s) = .error .trailingCharacters := by
  have hrun : r.run maxRoom (bs ++ s) = .ok (a, s) := h.run_eq hd blank_nil hends
  simp [readAll, hrun, mt dropBlanks_eq_nil_iff.1 hs]

end Takes

/-! ### Readers for values without parts -/

theorem takes_leaf {α : Type} {wanted : String} {pick : Leaf → Except Fault α} {l : Leaf} {bs : List UInt8} {a : α}
    (h : l.Reads bs) (hpick : pick l = .ok a) : Takes (leaf wanted pick) 0 bs a :=
  ⟨h.starts, fun _ hw hs => by
    simp [leaf, dropBlanks_append hw, h.starts.dropBlanks, h.readLeaf_eq hs, hpick, Except.map]⟩

theorem takes_spelled {t : String} {cs : List Char} (h : SpellsText t cs) : Takes text 0 (ofChars cs) t :=
  takes_leaf (Leaf.reads_text h) rfl

theorem takes_text (t : String) : Takes text 0 (ofChars (writtenText t)) t :=
  takes_spelled (spellsText_writtenText t)

theorem takes_boolean (b : Bool) : Takes boolean 0 (ofChars (toString b).toList) b :=
  takes_leaf (Leaf.reads_boolean b) rfl

theorem takes_byte (b : UInt8) : Takes byte 0 (ofChars (Text.decimal b.toNat).toList) b := by
  have hb := b.toNat_lt
  exact takes_leaf (Leaf.reads_decimal (by omega)) (by simp [hb])

/-- A scalar is read as a value of any kind. -/
theorem takes_scalar {l : Leaf} {bs : List UInt8} {a : Scalar} (h : l.Reads bs) (ha : Scalar.ofLeaf? l = some a) :
    Takes scalar 0 bs a := by
  refine ⟨h.starts, fun {room ws s} _ hw hs => ?_⟩
  have hany : ∀ inner, (anyWith inner).run 0 (ws ++ (bs ++ s)) = .ok (some a, s) := by
    intro inner
    have hread := h.readLeaf_eq hs
    obtain ⟨b, t, rfl, hblank, -⟩ := h.starts
    obtain ⟨hlist, hmap⟩ := h.not_opening
    simp only [anyWith, dropBlanks_append hw, List.cons_append, dropBlanks_cons_of_not hblank, hlist, hmap,
      ↓reduceIte] at hread ⊢
    simp only [hread, Except.map, ha]
  cases room with
  | zero => simp only [scalar, any, hany]
  | succ room => simp only [scalar, any, hany]

/-! ### Lists -/

/-- Parts divided by commas, with the blanks `gap` before each of them and the blanks `last` after them. Between the
brackets of no parts there is nothing. -/
def parts (gap last : List UInt8) : List (List UInt8) → List UInt8
  | [] => []
  | p :: ps => gap ++ p ++ ps.flatMap (fun q => comma :: (gap ++ q)) ++ last

theorem intercalate_cons (p : List Char) (ps : List (List Char)) :
    List.intercalate [','] (p :: ps) = p ++ ps.flatMap (',' :: ·) := by
  induction ps generalizing p with
  | nil => simp [List.intercalate]
  | cons q ps ih =>
    have h := ih q
    simp only [List.intercalate, List.intersperse, List.flatten_cons] at h ⊢
    rw [h]
    simp

/-- Nothing but commas between the parts. -/
theorem ofChars_intercalate (ps : List (List Char)) :
    ofChars (List.intercalate [','] ps) = parts [] [] (ps.map ofChars) := by
  cases ps with
  | nil => rfl
  | cons p ps =>
    have htail : ∀ qs : List (List Char),
        ofChars (qs.flatMap (',' :: ·)) = (qs.map ofChars).flatMap fun q => comma :: ([] ++ q) := by
      intro qs
      induction qs with
      | nil => rfl
      | cons q qs ih =>
        rw [List.flatMap_cons, Utf8.ofChars_append, Utf8.ofChars_cons_ascii (by decide), ih, List.map_cons,
          List.flatMap_cons]
        rfl
    rw [intercalate_cons, Utf8.ofChars_append, htail, List.map_cons, parts]
    simp

private theorem elements_closed {α : Type} {r : Reader α} {room : Nat} {first : Bool} {s rest : List UInt8}
    (hn : nextElement first s = .ok (.closed rest)) : elements r room first s = .ok ([], rest) := by
  rw [elements]
  split
  · rename_i he
    simp [hn] at he
  · rename_i he
    rw [hn] at he
    simp only [Except.ok.injEq, Next.closed.injEq] at he
    rw [he]
  · rename_i he
    simp [hn] at he

private theorem elements_part {α : Type} {r : Reader α} {room : Nat} {first : Bool} {s t u : List UInt8} {a : α}
    (hn : nextElement first s = .ok (.part t)) (ha : r.run room t = .ok (a, u)) :
    elements r room first s = (elements r room false u).map fun v => (a :: v.1, v.2) := by
  rw [elements]
  split
  · rename_i he
    simp [hn] at he
  · rename_i he
    simp [hn] at he
  · rename_i t' he
    rw [hn] at he
    simp only [Except.ok.injEq, Next.part.injEq] at he
    subst he
    split
    · rename_i hr
      simp [ha] at hr
    · rename_i hr
      rw [ha] at hr
      simp only [Except.ok.injEq, Prod.mk.injEq] at hr
      obtain ⟨rfl, rfl⟩ := hr
      rfl

private theorem elements_tail {α : Type} {r : Reader α} {depth room : Nat} {bss : List (List UInt8)} {as : List α}
    {gap last : List UInt8} (h : List.Forall₂ (Takes r depth) bss as) (hgap : Blank gap) (hlast : Blank last)
    (hd : depth ≤ room) (s : List UInt8) :
    elements r room false (bss.flatMap (fun bs => comma :: (gap ++ bs)) ++ (last ++ closeList :: s)) =
      .ok (as, s) := by
  induction h with
  | nil =>
    apply elements_closed
    simp [nextElement, dropBlanks_append hlast, dropBlanks_cons_of_not (show isBlank closeList = false by decide)]
  | @cons bs a bss as ha _ ih =>
    rw [List.flatMap_cons, List.append_assoc, List.cons_append, List.append_assoc]
    generalize hu : bss.flatMap (fun bs => comma :: (gap ++ bs)) ++ (last ++ closeList :: s) = u at ih ⊢
    have hends : Ends u := hu ▸ ends_flatMap _ bss (ends_append hlast (ends_closeList s))
    have hn : nextElement false (comma :: (gap ++ (bs ++ u))) = .ok (.part (bs ++ u)) := by
      obtain ⟨b, t, hb, hblank, hclose⟩ := ha.starts
      rw [nextElement, dropBlanks_cons_of_not (by decide)]
      simp only [show comma ≠ closeList by decide, ↓reduceIte, dropBlanks_append hgap, ha.starts.dropBlanks,
        Bool.false_eq_true]
      simp [hb, hclose]
    have hrun : r.run room (bs ++ u) = .ok (a, u) := ha.run_eq hd blank_nil hends
    rw [elements_part hn hrun, ih]
    rfl

/-- A list is taken from its elements between brackets. -/
theorem takes_list {α : Type} {r : Reader α} {depth : Nat} {bss : List (List UInt8)} {as : List α}
    {gap last : List UInt8} (h : List.Forall₂ (Takes r depth) bss as) (hgap : Blank gap) (hlast : Blank last) :
    Takes (list r) (depth + 1) (openList :: (parts gap last bss ++ [closeList])) as := by
  refine ⟨⟨openList, _, rfl, by decide, by decide⟩, fun {room ws s} hd hw _ => ?_⟩
  obtain ⟨room, rfl⟩ : ∃ k, room = k + 1 := ⟨room - 1, by omega⟩
  rw [Reader.list, List.cons_append]
  simp only [dropBlanks_append hw, dropBlanks_cons_of_not (show isBlank openList = false by decide), ↓reduceIte]
  cases h with
  | nil =>
    apply elements_closed
    simp [parts, nextElement, dropBlanks_cons_of_not (show isBlank closeList = false by decide)]
  | @cons bs a bss as ha hmore =>
    have hdepth : depth ≤ room := by omega
    have htail := elements_tail hmore hgap hlast hdepth s
    rw [parts]
    simp only [List.append_assoc, List.singleton_append]
    generalize hu : bss.flatMap (fun bs => comma :: (gap ++ bs)) ++ (last ++ closeList :: s) = u at htail
    have hends : Ends u := hu ▸ ends_flatMap _ bss (ends_append hlast (ends_closeList s))
    have hn : nextElement true (gap ++ (bs ++ u)) = .ok (.part (bs ++ u)) := by
      obtain ⟨b, t, hb, hblank, hclose⟩ := ha.starts
      simp only [nextElement, dropBlanks_append hgap, ha.starts.dropBlanks]
      simp [hb, hclose]
    have hrun : r.run room (bs ++ u) = .ok (a, u) := ha.run_eq hdepth blank_nil hends
    rw [elements_part hn hrun, htail]
    rfl

end Reader

end OpcodeTables.Json
