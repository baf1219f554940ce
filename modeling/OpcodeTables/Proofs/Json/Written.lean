import OpcodeTables.Json.Layout
import OpcodeTables.Json.Numeral
import OpcodeTables.Proofs.Json.Spelled

/-!
# Written texts and numbers

What was written between quotes is a spelling of the text, whatever its characters are (`spellsText_writtenText`).  A
natural number of 64 bits that was written in decimal is read back, if what follows does not continue a number
(`readNumber_decimal`).
-/

namespace OpcodeTables.Json

open Utf8 (ofChars)

/-! ### Texts -/

/-- The control characters without a short escape are spelled by their number. -/
private theorem isUnit_control :
    ∀ n < 0x20, IsUnit n ['0', '0', Nat.digitChar (n / 16), Nat.digitChar (n % 16)] := by
  decide +kernel

/-- A written character is a spelling of it. -/
theorem spellsChar_writtenChar (c : Char) : SpellsChar c (writtenChar c) := by
  -- the characters with an escape of one letter, then the other controls, then those that stand for themselves
  by_cases h1 : c = '"'
  · subst h1; exact .short (by decide)
  by_cases h2 : c = '\\'
  · subst h2; exact .short (by decide)
  by_cases h3 : c = '\x08'
  · subst h3; exact .short (by decide)
  by_cases h4 : c = '\x0c'
  · subst h4; exact .short (by decide)
  by_cases h5 : c = '\n'
  · subst h5; exact .short (by decide)
  by_cases h6 : c = '\r'
  · subst h6; exact .short (by decide)
  by_cases h7 : c = '\t'
  · subst h7; exact .short (by decide)
  simp only [writtenChar, h1, h2, h3, h4, h5, h6, h7, ↓reduceIte]
  split
  case isTrue h8 => exact .unit (isUnit_control c.toNat h8)
  case isFalse h8 => exact .plain h1 h2 (by omega)

theorem spellsText_writtenText (t : String) : SpellsText t (writtenText t) := by
  refine ⟨t.toList.map writtenChar, ?_, by rw [writtenText, List.flatMap_def]⟩
  rw [List.forall₂_map_right_iff]
  exact List.forall₂_same.2 fun c _ => spellsChar_writtenChar c

/-! ### Numbers -/

/-- What may follow a number: nothing, or a byte that does not continue it. -/
def Ends (s : List UInt8) : Prop :=
  ∀ b ∈ s.head?, isDigit b = false ∧ b ≠ point ∧ b ≠ 0x65 ∧ b ≠ 0x45

theorem isDigit_ofNat {c : Char} (h : c.isDigit) :
    c.toNat < 0x80 ∧ isDigit (.ofNat c.toNat) = true ∧ (UInt8.ofNat c.toNat).toNat - 0x30 = c.toNat - '0'.toNat := by
  simp only [Char.isDigit, Bool.and_eq_true, decide_eq_true_eq, ge_iff_le, UInt32.le_iff_toNat_le] at h
  have h : 0x30 ≤ c.toNat ∧ c.toNat ≤ 0x39 := h
  have hn : (UInt8.ofNat c.toNat).toNat = c.toNat := by
    rw [UInt8.toNat_ofNat']
    omega
  refine ⟨by omega, ?_, by rw [hn]; rfl⟩
  simp only [isDigit, Bool.and_eq_true, decide_eq_true_eq, UInt8.le_iff_toNat_le, hn, UInt8.reduceToNat]
  exact h

/-- Digits are taken up to a byte that is none. -/
theorem takeDigits_digits {cs : List Char} (h : ∀ c ∈ cs, c.isDigit) {s : List UInt8}
    (hs : ∀ b ∈ s.head?, isDigit b = false) :
    takeDigits (ofChars cs ++ s) = (cs.map fun c => c.toNat - '0'.toNat, s) := by
  induction cs with
  | nil =>
    cases s with
    | nil => rfl
    | cons b s =>
      have hb := hs b rfl
      simp [takeDigits, ofChars, hb]
  | cons c cs ih =>
    obtain ⟨ha, hd, hv⟩ := isDigit_ofNat (h c (by simp))
    have ih := ih fun d hd => h d (by simp [hd])
    simp only [takeDigits, Prod.mk.injEq] at ih ⊢
    rw [Utf8.ofChars_cons_ascii ha, List.cons_append, List.takeWhile_cons_of_pos hd, List.dropWhile_cons_of_pos hd,
      List.map_cons, List.map_cons, hv, ih.1, ih.2]
    exact ⟨rfl, rfl⟩

private theorem le_ofDigitChars (cs : List Char) (v : Nat) : v ≤ Nat.ofDigitChars 10 cs v := by
  induction cs generalizing v with
  | nil => exact Nat.le_refl v
  | cons c cs ih =>
    rw [Nat.ofDigitChars_cons]
    have := ih (10 * v + (c.toNat - '0'.toNat))
    omega

/-- A number that fits in 64 bits keeps all its digits. -/
private theorem gather_digits {cs : List Char} {v : Nat} (h : Nat.ofDigitChars 10 cs v < 2 ^ 64) :
    gather v (cs.map fun c => c.toNat - '0'.toNat) = (Nat.ofDigitChars 10 cs v, cs.length) := by
  induction cs generalizing v with
  | nil => rfl
  | cons c cs ih =>
    rw [Nat.ofDigitChars_cons, Nat.mul_comm] at h ⊢
    -- more digits never make a number smaller, so the first ones fit as well
    have hle := le_ofDigitChars cs (v * 10 + (c.toNat - '0'.toNat))
    have hlt : v * 10 + (c.toNat - '0'.toNat) < 2 ^ 64 := by omega
    simp only [List.map_cons, gather, hlt, ↓reduceIte, ih h, List.length_cons]

private theorem afterInteger_ends {n : Nat} {s : List UInt8} (hs : Ends s) :
    afterInteger false n 0 s = .ok (.natural n, s) := by
  cases s with
  | nil => simp [afterInteger, integer, Except.map]
  | cons b s =>
    obtain ⟨-, hp, he, hE⟩ := hs b rfl
    simp [afterInteger, integer, Except.map, hp, he, hE]

private theorem readNumber_zero {s : List UInt8} (hs : Ends s) : readNumber (zero :: s) = .ok (.natural 0, s) := by
  have hd : s.head?.any isDigit = false := by
    cases s with
    | nil => rfl
    | cons b s => exact (hs b rfl).1
  have hm : zero ≠ minus := by decide
  simp [readNumber, hm, unsigned, hd, afterInteger_ends hs]

theorem ofChars_decimal_eq_cons (n : Nat) :
    ∃ b t, ofChars (Text.decimal n).toList = b :: t ∧ isDigit b = true := by
  cases h : (Text.decimal n).toList with
  | nil => exact absurd h (Text.decimal_ne_nil n)
  | cons c cs =>
    obtain ⟨ha, hd, -⟩ := isDigit_ofNat (c := c) (Text.isDigit_of_mem_decimal (n := n) (by simp [h]))
    exact ⟨_, _, Utf8.ofChars_cons_ascii ha cs, hd⟩

/-- A number in decimal is read back where what follows does not continue it. -/
theorem readNumber_decimal {n : Nat} (hn : n < 2 ^ 64) {s : List UInt8} (hs : Ends s) :
    readNumber (ofChars (Text.decimal n).toList ++ s) = .ok (.natural n, s) := by
  rcases Nat.eq_zero_or_pos n with rfl | hpos
  · exact readNumber_zero hs
  have hdigit : ∀ c ∈ (Text.decimal n).toList, c.isDigit := fun c hc => Text.isDigit_of_mem_decimal hc
  have hvalue := Text.ofDigitChars_decimal n
  have hhead := Text.head?_decimal_ne_zero hpos
  have hne := Text.decimal_ne_nil n
  generalize (Text.decimal n).toList = cs at hdigit hvalue hhead hne
  cases cs with
  | nil => exact absurd rfl hne
  | cons c cs =>
    obtain ⟨ha, hd, -⟩ := isDigit_ofNat (hdigit c (by simp))
    have htake := takeDigits_digits hdigit fun b hb => (hs b hb).1
    have hgather := gather_digits (v := 0) (by rwa [hvalue])
    have hm : UInt8.ofNat c.toNat ≠ minus := by
      intro h
      rw [h] at hd
      exact absurd hd (by decide)
    have hz : UInt8.ofNat c.toNat ≠ zero := by
      intro h
      have h : c.toNat % 256 = 0x30 := by
        rw [← UInt8.toNat_ofNat', h]
        rfl
      have hc : c = '0' := Char.toNat_inj.1 (show c.toNat = 0x30 by omega)
      exact hhead (by rw [hc]; rfl)
    rw [Utf8.ofChars_cons_ascii ha, List.cons_append] at htake ⊢
    simp only [readNumber, hm, hz, hd, ↓reduceIte, unsigned, htake, hgather, hvalue, List.length_map, Nat.sub_self]
    exact afterInteger_ends hs

end OpcodeTables.Json
