import Mathlib.Data.List.Forall2
import OpcodeTables.Json.Quoted
import OpcodeTables.Proofs.Integer

/-!
# Spelled texts

The spellings of a text between quotes: a character stands for itself, or an escape of one letter, of four hexadecimal
digits or of a surrogate pair stands for it (`SpellsChar`, `SpellsText`).  Whatever the spelling is, the text is read
(`SpellsText.readText_eq`).
-/

namespace OpcodeTables.Json

open Utf8 (ofChars)

/-! ### Spellings -/

/-- Four hexadecimal digits that spell a number. -/
def IsUnit (n : Nat) (ds : List Char) : Prop :=
  ds.length = 4 ∧ Integer.value? 16 ds = some n
deriving Decidable

/-- The letters of short escapes, with their characters. -/
def shortEscapes : List (Char × Char) :=
  [('"', '"'), ('\\', '\\'), ('/', '/'), ('b', '\x08'), ('f', '\x0c'), ('n', '\n'), ('r', '\r'), ('t', '\t')]

/-- The spellings of a character between quotes. -/
inductive SpellsChar : Char → List Char → Prop
  | plain {c : Char} (quote : c ≠ '"') (backslash : c ≠ '\\') (control : 0x20 ≤ c.toNat) : SpellsChar c [c]
  | short {l c : Char} (mem : (l, c) ∈ shortEscapes) : SpellsChar c ['\\', l]
  | unit {c : Char} {ds : List Char} (digits : IsUnit c.toNat ds) : SpellsChar c ('\\' :: 'u' :: ds)
  | pair {c : Char} {high low : Nat} {ds es : List Char} (leading : IsUnit (0xD800 + high) ds)
    (trailing : IsUnit (0xDC00 + low) es) (high_lt : high < 0x400) (low_lt : low < 0x400)
    (toNat_eq : c.toNat = 0x10000 + high * 0x400 + low) : SpellsChar c ('\\' :: 'u' :: ds ++ '\\' :: 'u' :: es)

/-- The spellings of a text. -/
def SpellsText (t : String) (cs : List Char) : Prop :=
  ∃ spellings, List.Forall₂ SpellsChar t.toList spellings ∧ cs = '"' :: spellings.flatten ++ ['"']

/-! ### Bytes of pieces -/

/-- Bytes without quotes, backslashes and controls are taken as they are. -/
private theorem textBytes_append {bs : List UInt8} (h : ∀ b ∈ bs, b ≠ quoteMark ∧ b ≠ backslash ∧ 0x20 ≤ b)
    (s : List UInt8) : textBytes (bs ++ s) = (textBytes s).map fun t => (bs ++ t.1, t.2) := by
  induction bs with
  | nil =>
    rw [List.nil_append]
    cases textBytes s <;> rfl
  | cons b bs ih =>
    obtain ⟨hq, hb, hc⟩ := h b (by simp)
    have hc : ¬ b < 0x20 := UInt8.not_lt.2 hc
    rw [List.cons_append, textBytes, ih fun d hd => h d (by simp [hd])]
    simp only [hq, hb, hc, ↓reduceIte]
    cases textBytes s <;> rfl

private theorem textBytes_escape {c : Char} {r s : List UInt8} (h : escape r = .ok (c, s)) :
    textBytes (backslash :: r) = (textBytes s).map fun t => (String.utf8EncodeChar c ++ t.1, t.2) := by
  rw [textBytes]
  simp only [show backslash ≠ quoteMark by decide, ↓reduceIte]
  split
  · rename_i he
    simp [h] at he
  · rename_i he
    rw [h] at he
    simp only [Except.ok.injEq, Prod.mk.injEq] at he
    rw [he.1, he.2]

/-- The bytes of a character that stands for itself have no meaning of their own. -/
theorem mem_utf8EncodeChar_of_plain {c : Char} (hq : c ≠ '"') (hb : c ≠ '\\') (hc : 0x20 ≤ c.toNat) :
    ∀ b ∈ String.utf8EncodeChar c, b ≠ quoteMark ∧ b ≠ backslash ∧ 0x20 ≤ b := by
  intro b hm
  by_cases ha : c.toNat < 0x80
  · have hs := Utf8.ofChars_cons_ascii ha []
    simp only [ofChars, List.flatMap_cons, List.flatMap_nil, List.append_nil] at hs
    rw [hs, List.mem_singleton] at hm
    subst hm
    have ne : ∀ d : Char, d.toNat < 0x80 → c ≠ d → UInt8.ofNat c.toNat ≠ .ofNat d.toNat := by
      intro d hd hcd h
      have h := congrArg UInt8.toNat h
      rw [UInt8.toNat_ofNat', UInt8.toNat_ofNat'] at h
      exact hcd (Char.toNat_inj.1 (by omega))
    refine ⟨ne '"' (by decide) hq, ne '\\' (by decide) hb, ?_⟩
    rw [UInt8.le_iff_toNat_le, UInt8.toNat_ofNat']
    simp only [UInt8.reduceToNat]
    omega
  · have hle : (0x80 : UInt8) ≤ b := Utf8.le_of_mem_utf8EncodeChar (by omega) hm
    rw [UInt8.le_iff_toNat_le] at hle
    simp only [UInt8.reduceToNat] at hle
    refine ⟨?_, ?_, ?_⟩
    · rintro rfl
      simp [quoteMark] at hle
    · rintro rfl
      simp [backslash] at hle
    · rw [UInt8.le_iff_toNat_le]
      simp only [UInt8.reduceToNat]
      omega

theorem hexDigit?_of_digit? {c : Char} {v : Nat} (h : Integer.digit? 16 c = some v) :
    c.toNat < 0x80 ∧ hexDigit? (.ofNat c.toNat) = some v := by
  have all : ∀ n < 0x80, Integer.digit? 16 (.ofNat n) = hexDigit? (.ofNat n) := by decide +kernel
  have hlt : c.toNat < 0x80 := by
    have := Symbol.isAlphanum_iff.1 (Integer.isAlphanum_of_digit? h)
    omega
  rw [← all c.toNat hlt, Char.ofNat_toNat]
  exact ⟨hlt, h⟩

/-- Four digits are read wherever they stand. -/
theorem IsUnit.fourHex_eq {n : Nat} {ds : List Char} (h : IsUnit n ds) (s : List UInt8) :
    fourHex (ofChars ds ++ s) = .ok (n, s) := by
  obtain ⟨hlength, hvalue⟩ := h
  obtain ⟨vs, hvs, rfl⟩ := Integer.value?_eq_some_iff.1 hvalue
  obtain ⟨a, b, c, d, rfl⟩ : ∃ a b c d, ds = [a, b, c, d] := by
    match ds, hlength with
    | [a, b, c, d], _ => exact ⟨a, b, c, d, rfl⟩
  obtain ⟨va, vb, vc, vd, rfl⟩ : ∃ va vb vc vd, vs = [va, vb, vc, vd] := by
    have hlength := congrArg List.length hvs
    simp only [List.length_map] at hlength
    match vs, hlength with
    | [va, vb, vc, vd], _ => exact ⟨va, vb, vc, vd, rfl⟩
  simp only [List.map_cons, List.map_nil, List.cons.injEq, and_true] at hvs
  obtain ⟨ha, hb, hc, hd⟩ := hvs
  obtain ⟨hla, ha⟩ := hexDigit?_of_digit? ha.symm
  obtain ⟨hlb, hb⟩ := hexDigit?_of_digit? hb.symm
  obtain ⟨hlc, hc⟩ := hexDigit?_of_digit? hc.symm
  obtain ⟨hld, hd⟩ := hexDigit?_of_digit? hd.symm
  rw [Utf8.ofChars_cons_ascii hla, Utf8.ofChars_cons_ascii hlb, Utf8.ofChars_cons_ascii hlc,
    Utf8.ofChars_cons_ascii hld]
  have hn : Nat.ofDigits 16 [va, vb, vc, vd].reverse = ((va * 16 + vb) * 16 + vc) * 16 + vd := by
    simp [Nat.ofDigits_cons]
    omega
  simp only [ofChars, List.flatMap_nil, List.cons_append, List.nil_append, fourHex, ha, hb, hc, hd, hn]

theorem shortEscape?_of_mem {l c : Char} (h : (l, c) ∈ shortEscapes) :
    l.toNat < 0x80 ∧ UInt8.ofNat l.toNat ≠ 0x75 ∧ shortEscape? (.ofNat l.toNat) = some c := by
  have all : ∀ e ∈ shortEscapes,
      e.1.toNat < 0x80 ∧ UInt8.ofNat e.1.toNat ≠ 0x75 ∧ shortEscape? (.ofNat e.1.toNat) = some e.2 := by
    decide
  exact all (l, c) h

/-! ### Reading -/

/-- A character is no surrogate. -/
private theorem unicodeEscape_of_isUnit {c : Char} {ds : List Char} (h : IsUnit c.toNat ds) (s : List UInt8) :
    unicodeEscape (ofChars ds ++ s) = .ok (c, s) := by
  have hvalid : c.toNat < 0xD800 ∨ 0xDFFF < c.toNat := by
    have := c.valid
    simp only [UInt32.isValidChar, Nat.isValidChar] at this
    rw [Char.toNat]
    omega
  have ht : isTrailingSurrogate c.toNat = false := by
    simp only [isTrailingSurrogate, Bool.and_eq_false_iff, decide_eq_false_iff_not]
    omega
  have hl : isLeadingSurrogate c.toNat = false := by
    simp only [isLeadingSurrogate, Bool.and_eq_false_iff, decide_eq_false_iff_not]
    omega
  simp only [unicodeEscape, h.fourHex_eq, ht, hl, Bool.false_eq_true, ↓reduceIte, Char.ofNat_toNat]

/-- Two surrogates that belong together are one character. -/
private theorem unicodeEscape_of_pair {c : Char} {high low : Nat} {ds es : List Char} (hds : IsUnit (0xD800 + high) ds)
    (hes : IsUnit (0xDC00 + low) es) (hhigh : high < 0x400) (hlow : low < 0x400)
    (hc : c.toNat = 0x10000 + high * 0x400 + low) (s : List UInt8) :
    unicodeEscape (ofChars ds ++ backslash :: 0x75 :: (ofChars es ++ s)) = .ok (c, s) := by
  have ht : isTrailingSurrogate (0xD800 + high) = false := by
    simp only [isTrailingSurrogate, Bool.and_eq_false_iff, decide_eq_false_iff_not]
    omega
  have hl : isLeadingSurrogate (0xD800 + high) = true := by
    simp only [isLeadingSurrogate, Bool.and_eq_true, decide_eq_true_eq]
    omega
  have ht' : isTrailingSurrogate (0xDC00 + low) = true := by
    simp only [isTrailingSurrogate, Bool.and_eq_true, decide_eq_true_eq]
    omega
  have hsum : (0xD800 + high - 0xD800) * 0x400 + (0xDC00 + low - 0xDC00) + 0x10000 = c.toNat := by omega
  simp only [unicodeEscape, hds.fourHex_eq, ht, hl, Bool.false_eq_true, ↓reduceIte, trailingHalf, ne_eq,
    not_true_eq_false, or_self, hes.fourHex_eq, ht', hsum, Char.ofNat_toNat]

private theorem escape_of_unicodeEscape (r : List UInt8) : escape (0x75 :: r) = unicodeEscape r := by
  simp only [escape, ↓reduceIte]

/-- Reading a spelling of a character gives its bytes. -/
theorem SpellsChar.textBytes_eq {c : Char} {cs : List Char} (h : SpellsChar c cs) (s : List UInt8) :
    textBytes (ofChars cs ++ s) = (textBytes s).map fun t => (String.utf8EncodeChar c ++ t.1, t.2) := by
  have hescape : ∀ cs : List Char, ofChars ('\\' :: 'u' :: cs) = backslash :: 0x75 :: ofChars cs := by
    intro cs
    rw [Utf8.ofChars_cons_ascii (by decide), Utf8.ofChars_cons_ascii (by decide)]
    rfl
  cases h with
  | plain quote slash control =>
    simp only [ofChars, List.flatMap_cons, List.flatMap_nil, List.append_nil]
    exact textBytes_append (mem_utf8EncodeChar_of_plain quote slash control) s
  | @short l _ mem =>
    obtain ⟨hl, hu, hshort⟩ := shortEscape?_of_mem mem
    have hbytes : ofChars ['\\', l] = [backslash, .ofNat l.toNat] := by
      rw [Utf8.ofChars_cons_ascii (by decide), Utf8.ofChars_cons_ascii hl]
      rfl
    rw [hbytes, List.cons_append, List.cons_append, List.nil_append]
    refine textBytes_escape ?_
    simp only [escape, hu, ↓reduceIte, hshort]
  | unit digits =>
    rw [hescape, List.cons_append, List.cons_append]
    refine textBytes_escape ?_
    rw [escape_of_unicodeEscape, unicodeEscape_of_isUnit digits]
  | pair leading trailing high_lt low_lt toNat_eq =>
    rw [Utf8.ofChars_append, hescape, hescape, List.append_assoc, List.cons_append, List.cons_append, List.cons_append,
      List.cons_append]
    refine textBytes_escape ?_
    rw [escape_of_unicodeEscape, unicodeEscape_of_pair leading trailing high_lt low_lt toNat_eq]

private theorem textBytes_of_spells {cs : List Char} {spellings : List (List Char)}
    (h : List.Forall₂ SpellsChar cs spellings) (s : List UInt8) :
    textBytes (ofChars spellings.flatten ++ quoteMark :: s) = .ok (ofChars cs, s) := by
  induction h with
  | nil => simp [ofChars, textBytes]
  | cons hc _ ih =>
    rw [List.flatten_cons, Utf8.ofChars_append, List.append_assoc, hc.textBytes_eq, ih]
    rfl

/-- A text is read from any of its spellings. -/
theorem SpellsText.readText_eq {t : String} {cs : List Char} (h : SpellsText t cs) :
    ∃ bs, ofChars cs = quoteMark :: bs ∧ ∀ s, readText (bs ++ s) = .ok (t, s) := by
  obtain ⟨spellings, hspellings, rfl⟩ := h
  refine ⟨ofChars spellings.flatten ++ [quoteMark], ?_, fun s => ?_⟩
  · rw [List.cons_append, Utf8.ofChars_cons_ascii (by decide), Utf8.ofChars_append]
    rfl
  · have hd : Utf8.decode? (ofChars t.toList) = some t := by
      rw [Utf8.decode?_eq_some_iff, Utf8.encode_eq_flatMap, ofChars]
    rw [List.append_assoc, List.singleton_append]
    simp only [readText, textBytes_of_spells hspellings, hd]

end OpcodeTables.Json
