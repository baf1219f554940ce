import Mathlib.Data.Nat.Digits.Defs
import OpcodeTables.Integer
import OpcodeTables.Symbol
import OpcodeTables.Text.Blank
import OpcodeTables.Text.Numeral

/-!
# Reading integer literals

What a literal that is read looks like (`read?_eq_some_iff`, `radixAndDigits_cases`), its number in terms of the values
of its digits (`value?_eq_some_iff`), and its characters (`isTail_of_read?`).  Digits are read, in decimal
(`read?_of_isDigit`) and behind the prefix of hexadecimal ones (`read?_of_hex`), so decimal numerals are read back
(`read?_decimal`), and so are the hexadecimal ones of bytes (`read?_hexUpper`).

The literals have a grammar (`Separated`, `Denotes`), and what is read is exactly what it derives, as long as the number
has 64 bits (`read?_eq_some_iff_denotes`).
-/

namespace OpcodeTables

namespace Symbol

theorem isAlphanum_iff {c : Char} : c.isAlphanum ↔
    (0x30 ≤ c.toNat ∧ c.toNat ≤ 0x39) ∨ (0x41 ≤ c.toNat ∧ c.toNat ≤ 0x5A) ∨ (0x61 ≤ c.toNat ∧ c.toNat ≤ 0x7A) := by
  have h : c.isAlphanum = ((decide (0x41 ≤ c.val ∧ c.val ≤ 0x5A) || (0x61 ≤ c.val && c.val ≤ 0x7A)) ||
      (0x30 ≤ c.val && c.val ≤ 0x39)) := rfl
  simp only [h, Bool.or_eq_true, Bool.and_eq_true, decide_eq_true_eq, UInt32.le_iff_toNat_le, Char.toNat_val]
  exact or_comm

theorem toNat_bounds_of_isTail {c : Char} (h : isTail c) : 0x30 ≤ c.toNat ∧ c.toNat < 0x7B := by
  simp only [isTail, Bool.or_eq_true, decide_eq_true_eq, isAlphanum_iff] at h
  rcases h with h | rfl
  · omega
  · decide

end Symbol

namespace Integer

theorem isAlphanum_of_digit? {radix d : Nat} {c : Char} (h : digit? radix c = some d) : c.isAlphanum := by
  rw [Symbol.isAlphanum_iff]
  simp only [digit?, Option.ite_none_right_eq_some, Char.le_def, UInt32.le_iff_toNat_le] at h
  obtain ⟨h, -⟩ := h
  split at h
  · exact .inl ‹_›
  split at h
  · exact .inr (.inr ‹_›)
  split at h
  · exact .inr (.inl ‹_›)
  · omega

theorem isDigit_of_digit? {radix d : Nat} {c : Char} (hr : radix ≤ 10) (h : digit? radix c = some d) :
    c.isDigit := by
  simp only [digit?, Option.ite_none_right_eq_some, Char.le_def, UInt32.le_iff_toNat_le, Char.toNat_val] at h
  obtain ⟨h, -⟩ := h
  split at h
  · rename_i hd
    exact Char.isDigit_iff_toNat.2 hd
  split at h
  · rename_i hl
    have : ('a' : Char).toNat = 97 := rfl
    omega
  split at h
  · rename_i hl
    have : ('A' : Char).toNat = 65 := rfl
    omega
  · omega

/-- A character of a list that was read digit by digit has a value. -/
theorem exists_of_map_some {f : Char → Option Nat} {ds : List Char} {vs : List Nat} (h : vs.map some = ds.map f)
    {c : Char} (hc : c ∈ ds) : ∃ d ∈ vs, f c = some d := by
  have hm := List.mem_map_of_mem (f := f) hc
  rw [← h] at hm
  obtain ⟨d, hd, hs⟩ := List.mem_map.1 hm
  exact ⟨d, hd, hs.symm⟩

theorem value?_eq_some_iff {radix n : Nat} {ds : List Char} :
    value? radix ds = some n ↔
      ∃ vs : List Nat, vs.map some = ds.map (digit? radix) ∧ Nat.ofDigits radix vs.reverse = n := by
  have hfold : ∀ a, ds.foldlM (fun v c => (digit? radix c).map (v * radix + ·)) a = some n ↔
      ∃ vs : List Nat, vs.map some = ds.map (digit? radix) ∧ vs.foldl (fun v d => v * radix + d) a = n := by
    induction ds with
    | nil => simp
    | cons c ds ih =>
      intro a
      rw [List.foldlM_cons, List.map_cons]
      cases hc : digit? radix c with
      | none => simp [List.map_eq_cons_iff]
      | some d => simp [ih, List.map_eq_cons_iff]
  -- the fold is Horner's scheme, from the first digit on
  have horner : ∀ vs : List Nat, vs.foldl (fun v d => v * radix + d) 0 = Nat.ofDigits radix vs.reverse := by
    intro vs
    rw [Nat.ofDigits_eq_foldr, List.foldr_reverse]
    congr
    funext v d
    rw [Nat.mul_comm, Nat.add_comm]
    rfl
  simp only [← horner]
  exact hfold 0

/-- The letters of prefixes with their radixes. -/
def prefixes : List (Char × Nat) :=
  [('x', 16), ('X', 16), ('b', 2), ('B', 2)]

theorem radixAndDigits_cases (s : List Char) :
    (∃ p radix ds, (p, radix) ∈ prefixes ∧ s = '0' :: p :: ds ∧ radixAndDigits s = (radix, ds)) ∨
    ((∀ p radix ds, (p, radix) ∈ prefixes → s ≠ '0' :: p :: ds) ∧ radixAndDigits s = (10, s)) := by
  unfold radixAndDigits
  split
  · exact .inl ⟨'x', 16, _, by decide, rfl, rfl⟩
  · exact .inl ⟨'X', 16, _, by decide, rfl, rfl⟩
  · exact .inl ⟨'b', 2, _, by decide, rfl, rfl⟩
  · exact .inl ⟨'B', 2, _, by decide, rfl, rfl⟩
  · rename_i hx hX hb hB
    refine .inr ⟨?_, rfl⟩
    rintro p radix ds hp rfl
    simp only [prefixes, List.mem_cons, Prod.mk.injEq, List.not_mem_nil, or_false] at hp
    rcases hp with ⟨rfl, -⟩ | ⟨rfl, -⟩ | ⟨rfl, -⟩ | ⟨rfl, -⟩
    · exact hx ds rfl
    · exact hX ds rfl
    · exact hb ds rfl
    · exact hB ds rfl

theorem filter_underscore_eq_self {ds : List Char} (h : '_' ∉ ds) : ds.filter (· ≠ '_') = ds := by
  rw [List.filter_eq_self]
  intro c hc
  simp only [ne_eq, decide_eq_true_eq]
  rintro rfl
  exact h hc

theorem read?_eq_some_iff {s : List Char} {n : Nat} :
    read? s = some n ↔
      (radixAndDigits s).2.head? ≠ some '_' ∧ (radixAndDigits s).2.getLast? ≠ some '_' ∧
      (radixAndDigits s).2.filter (· ≠ '_') ≠ [] ∧
      value? (radixAndDigits s).1 ((radixAndDigits s).2.filter (· ≠ '_')) = some n ∧ n < 2 ^ 64 := by
  unfold read?
  generalize radixAndDigits s = r
  obtain ⟨radix, ds⟩ := r
  by_cases hu : ds.head? = some '_' ∨ ds.getLast? = some '_'
  · simp only [if_pos hu, reduceCtorEq, false_iff]
    tauto
  · rw [not_or] at hu
    simp only [hu.1, hu.2, or_self, if_false, ne_eq, not_false_eq_true, true_and]
    split
    · rename_i he
      simp only [reduceCtorEq, he, not_true_eq_false, false_and]
    · rename_i he
      simp only [he, not_false_eq_true, true_and, Option.filter_eq_some_iff, decide_eq_true_eq]

/-- A literal is made of digits and underscores, the letter of its prefix aside. -/
theorem isTail_of_read? {s : List Char} {n : Nat} (h : read? s = some n) {c : Char} (hc : c ∈ s) :
    Symbol.isTail c := by
  obtain ⟨-, -, -, hv, -⟩ := read?_eq_some_iff.1 h
  obtain ⟨vs, hvs, -⟩ := value?_eq_some_iff.1 hv
  have hdigits : ∀ c ∈ (radixAndDigits s).2, Symbol.isTail c := by
    intro c hc
    by_cases hu : c = '_'
    · rw [hu]
      rfl
    · have hm : c ∈ (radixAndDigits s).2.filter (· ≠ '_') := List.mem_filter.2 ⟨hc, by simpa using hu⟩
      obtain ⟨d, -, hd⟩ := exists_of_map_some hvs hm
      rw [Symbol.isTail, isAlphanum_of_digit? hd]
      rfl
  rcases radixAndDigits_cases s with ⟨p, radix, ds, hp, rfl, hr⟩ | ⟨-, hr⟩
  · have hprefix : ∀ p ∈ prefixes, Symbol.isTail p.1 := by decide
    rw [hr] at hdigits
    rcases List.mem_cons.1 hc with rfl | hc
    · decide
    rcases List.mem_cons.1 hc with rfl | hc
    · exact hprefix _ hp
    · exact hdigits c hc
  · rw [hr] at hdigits
    exact hdigits c hc

theorem value?_of_isDigit {ds : List Char} (h : ∀ c ∈ ds, c.isDigit) :
    value? 10 ds = some (Nat.ofDigitChars 10 ds 0) := by
  have hdigit : ∀ c : Char, c.isDigit → digit? 10 c = some (c.toNat - 48) := by
    intro c hc
    rw [Char.isDigit_iff_toNat] at hc
    have hr : '0' ≤ c ∧ c ≤ '9' := hc
    have hlt : c.toNat - 48 < 10 := by
      have : c.toNat ≤ 57 := hc.2
      omega
    simp [digit?, hr, hlt]
  rw [value?, Nat.ofDigitChars_eq_foldl]
  generalize 0 = a
  induction ds generalizing a with
  | nil => rfl
  | cons c ds ih =>
    rw [List.foldlM_cons, hdigit c (h c (by simp)), List.foldl_cons, Nat.mul_comm 10]
    exact ih (fun d hd => h d (by simp [hd])) _

/-- Decimal digits are read, leading zeros or not. -/
theorem read?_of_isDigit {ds : List Char} (hne : ds ≠ []) (hdigits : ∀ c ∈ ds, c.isDigit)
    (h : Nat.ofDigitChars 10 ds 0 < 2 ^ 64) : read? ds = some (Nat.ofDigitChars 10 ds 0) := by
  have hu : '_' ∉ ds := fun hm => absurd (hdigits _ hm) (by decide)
  have hr : radixAndDigits ds = (10, ds) := by
    rcases radixAndDigits_cases ds with ⟨p, radix, es, hp, hs, -⟩ | ⟨-, hr⟩
    · have hletter : ∀ p ∈ prefixes, ¬ p.1.isDigit := by decide
      exact absurd (hdigits p (by simp [hs])) (hletter _ hp)
    · exact hr
  rw [read?_eq_some_iff, hr, filter_underscore_eq_self hu]
  exact ⟨fun h => hu (List.mem_of_head? h), fun h => hu (List.mem_of_getLast? h), hne, value?_of_isDigit hdigits, h⟩

theorem read?_decimal {n : Nat} (h : n < 2 ^ 64) : read? (Text.decimal n).toList = some n := by
  have hvalue := Text.ofDigitChars_decimal n
  have hread := read?_of_isDigit (Text.decimal_ne_nil n) (fun c hc => Text.isDigit_of_mem_decimal hc) (by rwa [hvalue])
  rwa [hvalue] at hread

/-- Hexadecimal digits are read behind their prefix. -/
theorem read?_of_hex {ds : List Char} {n : Nat} (hne : ds ≠ []) (hvalue : value? 16 ds = some n) (h : n < 2 ^ 64) :
    read? ('0' :: 'x' :: ds) = some n := by
  have hu : '_' ∉ ds := by
    intro hm
    obtain ⟨vs, hvs, -⟩ := value?_eq_some_iff.1 hvalue
    obtain ⟨d, -, hd⟩ := exists_of_map_some hvs hm
    exact absurd (isAlphanum_of_digit? hd) (by decide)
  have hr : radixAndDigits ('0' :: 'x' :: ds) = (16, ds) := rfl
  rw [read?_eq_some_iff, hr, filter_underscore_eq_self hu]
  exact ⟨fun h => hu (List.mem_of_head? h), fun h => hu (List.mem_of_getLast? h), hne, hvalue, h⟩

/-- No blanks stand around what is read. -/
theorem trim_of_read? {s : List Char} {n : Nat} (h : read? s = some n) : Text.trim s = s := by
  refine Text.trim_eq_self fun c hc => ?_
  have := Symbol.toNat_bounds_of_isTail (isTail_of_read? h hc)
  exact Text.isBlank_eq_false (by omega) (by omega)

/-- The hexadecimal numeral of a byte is read back behind its prefix. -/
theorem read?_hexUpper (b : UInt8) : read? ("0x" ++ Text.hexUpper b.toNat).toList = some b.toNat := by
  have all : ∀ n < 256, read? ('0' :: 'x' :: (Nat.toDigits 16 n).map Char.toUpper) = some n := by decide +kernel
  have hchars : ("0x" ++ Text.hexUpper b.toNat).toList = '0' :: 'x' :: (Nat.toDigits 16 b.toNat).map Char.toUpper := by
    simp [Text.hexUpper]
  rw [hchars, all b.toNat b.toNat_lt]

/-! ### The grammar of literals -/

/-- A digit of a radix: a decimal digit, or a letter of either case counting from ten. -/
def IsDigit (radix : Nat) (c : Char) (d : Nat) : Prop :=
  d < radix ∧ (c = d.digitChar ∨ c = d.digitChar.toUpper)

/-- Digits of the given values, with any number of underscores between two of them. -/
inductive Separated (radix : Nat) : List Char → List Nat → Prop where
  | last {c : Char} {d : Nat} (h : IsDigit radix c d) : Separated radix [c] [d]
  | cons {c : Char} {d : Nat} {cs : List Char} {ds : List Nat} (h : IsDigit radix c d) (n : Nat)
      (rest : Separated radix cs ds) : Separated radix (c :: (List.replicate n '_' ++ cs)) (d :: ds)

/-- The literal denotes the number: decimal digits, or those of another radix behind its prefix, the first digit
counting most. -/
inductive Denotes : List Char → Nat → Prop where
  | decimal {cs : List Char} {ds : List Nat} (h : Separated 10 cs ds) : Denotes cs (Nat.ofDigits 10 ds.reverse)
  | prefixed {p : Char} {radix : Nat} {cs : List Char} {ds : List Nat} (hp : (p, radix) ∈ prefixes)
      (h : Separated radix cs ds) : Denotes ('0' :: p :: cs) (Nat.ofDigits radix ds.reverse)

/-- The radixes of literals. -/
def radixes : List Nat :=
  [2, 10, 16]

theorem digit?_eq_some_iff {radix d : Nat} (hr : radix ∈ radixes) {c : Char} :
    digit? radix c = some d ↔ IsDigit radix c d := by
  constructor
  · intro h
    have hc : c.toNat < 128 := by
      have := Symbol.isAlphanum_iff.1 (isAlphanum_of_digit? h)
      omega
    have all : ∀ radix ∈ radixes, ∀ n < 128, (digit? radix (.ofNat n)).all fun d =>
        d < radix ∧ (Char.ofNat n = d.digitChar ∨ Char.ofNat n = d.digitChar.toUpper) := by
      decide +kernel
    have hd := all radix hr c.toNat hc
    rw [Char.ofNat_toNat, h] at hd
    simpa [IsDigit] using hd
  · rintro ⟨hd, hc⟩
    have all : ∀ radix ∈ radixes, ∀ d < radix,
        digit? radix d.digitChar = some d ∧ digit? radix d.digitChar.toUpper = some d := by
      decide +kernel
    obtain ⟨hlower, hupper⟩ := all radix hr d hd
    rcases hc with rfl | rfl
    · exact hlower
    · exact hupper

theorem ne_underscore_of_digit? {radix d : Nat} {c : Char} (h : digit? radix c = some d) : c ≠ '_' := by
  rintro rfl
  exact absurd (isAlphanum_of_digit? h) (by decide)

/-- Where the last character is no underscore, digits are left to read after the underscores in front. -/
private theorem exists_separated {radix : Nat} (hr : radix ∈ radixes) {cs : List Char} {ds : List Nat} (hne : cs ≠ [])
    (hlast : cs.getLast? ≠ some '_') (hds : ds.map some = (cs.filter (· ≠ '_')).map (digit? radix)) :
    ∃ n rest, cs = List.replicate n '_' ++ rest ∧ Separated radix rest ds := by
  induction cs generalizing ds with
  | nil => exact absurd rfl hne
  | cons c cs ih =>
    by_cases hc : c = '_'
    · subst hc
      cases cs with
      | nil => exact absurd rfl hlast
      | cons c cs =>
        rw [List.getLast?_cons_cons] at hlast
        obtain ⟨n, rest, hcs, hrest⟩ := ih (by simp) hlast (by simpa using hds)
        exact ⟨n + 1, rest, by rw [hcs]; rfl, hrest⟩
    · rw [List.filter_cons_of_pos (by simpa using hc), List.map_cons, List.map_eq_cons_iff] at hds
      obtain ⟨d, ds, rfl, hd, hds⟩ := hds
      have hd := (digit?_eq_some_iff hr).1 hd.symm
      cases cs with
      | nil =>
        obtain rfl : ds = [] := by simpa using hds
        exact ⟨0, [c], rfl, .last hd⟩
      | cons c' cs =>
        rw [List.getLast?_cons_cons] at hlast
        obtain ⟨n, rest, hcs, hrest⟩ := ih (by simp) hlast hds
        exact ⟨0, _, rfl, hcs ▸ .cons hd n hrest⟩

theorem separated_iff {radix : Nat} (hr : radix ∈ radixes) {cs : List Char} {ds : List Nat} :
    Separated radix cs ds ↔ cs ≠ [] ∧ cs.head? ≠ some '_' ∧ cs.getLast? ≠ some '_' ∧
      ds.map some = (cs.filter (· ≠ '_')).map (digit? radix) := by
  constructor
  · intro h
    induction h with
    | last h =>
      have hd := (digit?_eq_some_iff hr).2 h
      have hc := ne_underscore_of_digit? hd
      simp [hc, hd]
    | @cons c d cs ds h n rest ih =>
      have hd := (digit?_eq_some_iff hr).2 h
      have hc := ne_underscore_of_digit? hd
      obtain ⟨hne, -, hlast, hds⟩ := ih
      have hend : (c :: (List.replicate n '_' ++ cs)).getLast? = cs.getLast? := by
        rw [← List.cons_append, List.getLast?_append, List.getLast?_eq_some_getLast hne, Option.some_or]
      refine ⟨by simp, by simpa using hc, hend ▸ hlast, ?_⟩
      simp [hc, hd, hds]
  · rintro ⟨hne, hhead, hlast, hds⟩
    obtain ⟨n, rest, rfl, hrest⟩ := exists_separated hr hne hlast hds
    cases n with
    | zero => exact hrest
    | succ n => exact absurd rfl hhead

theorem radixAndDigits_mem (s : List Char) : (radixAndDigits s).1 ∈ radixes := by
  rcases radixAndDigits_cases s with ⟨p, radix, ds, hp, -, hr⟩ | ⟨-, hr⟩
  · have all : ∀ p ∈ prefixes, p.2 ∈ radixes := by decide
    rw [hr]
    exact all _ hp
  · rw [hr]
    have decimal : 10 ∈ radixes := by decide
    exact decimal

/-- No decimal digits follow a prefix: its letter is none. -/
theorem not_separated_prefixed {p : Char} {radix : Nat} (hp : (p, radix) ∈ prefixes) {cs : List Char} {ds : List Nat} :
    ¬ Separated 10 ('0' :: p :: cs) ds := by
  intro h
  have hletter : ∀ p ∈ prefixes, p.1 ≠ '_' ∧ digit? 10 p.1 = none := by decide
  obtain ⟨hp, hnone⟩ := hletter _ hp
  obtain ⟨-, -, -, hds⟩ := (separated_iff (by decide)).1 h
  have hmem : p ∈ ('0' :: p :: cs).filter (· ≠ '_') := by simp [hp]
  obtain ⟨d, -, hd⟩ := exists_of_map_some hds hmem
  rw [hnone] at hd
  cases hd

/-- The prefix of a literal says which digits denote its number. -/
theorem denotes_iff {s : List Char} {n : Nat} :
    Denotes s n ↔ ∃ ds, Separated (radixAndDigits s).1 (radixAndDigits s).2 ds ∧
      Nat.ofDigits (radixAndDigits s).1 ds.reverse = n := by
  constructor
  · intro h
    cases h with
    | @decimal cs ds h =>
      refine ⟨ds, ?_⟩
      rcases radixAndDigits_cases s with ⟨p, radix, cs, hp, rfl, -⟩ | ⟨-, hr⟩
      · exact absurd h (not_separated_prefixed hp)
      · rw [hr]
        exact ⟨h, rfl⟩
    | @prefixed p radix cs ds hp h =>
      have hr : ∀ p ∈ prefixes, radixAndDigits ('0' :: p.1 :: cs) = (p.2, cs) := by
        simp [prefixes, radixAndDigits]
      rw [hr _ hp]
      exact ⟨ds, h, rfl⟩
  · rintro ⟨ds, h, rfl⟩
    rcases radixAndDigits_cases s with ⟨p, radix, cs, hp, rfl, hr⟩ | ⟨-, hr⟩
    · rw [hr] at h ⊢
      exact .prefixed hp h
    · rw [hr] at h ⊢
      exact .decimal h

theorem read?_eq_some_iff_denotes {s : List Char} {n : Nat} : read? s = some n ↔ Denotes s n ∧ n < 2 ^ 64 := by
  rw [read?_eq_some_iff, denotes_iff]
  simp only [separated_iff (radixAndDigits_mem s), value?_eq_some_iff]
  constructor
  · rintro ⟨hhead, hlast, hne, ⟨ds, hds, hn⟩, hlt⟩
    refine ⟨⟨ds, ⟨?_, hhead, hlast, hds⟩, hn⟩, hlt⟩
    intro hnil
    rw [hnil] at hne
    exact hne rfl
  · rintro ⟨⟨ds, ⟨hne, hhead, hlast, hds⟩, hn⟩, hlt⟩
    refine ⟨hhead, hlast, ?_, ⟨ds, hds, hn⟩, hlt⟩
    -- the first character is a digit
    obtain ⟨c, cs, hcs⟩ := List.exists_cons_of_ne_nil hne
    rw [hcs] at hhead ⊢
    have hc : c ≠ '_' := fun hc => hhead (congrArg some hc)
    simp [hc]

/-- A text is read as a number just if it is a literal that denotes it and the number has at most 64 bits, and it is not
read just if it is no literal, or one of a larger number. -/
theorem read?_iff_denotes (s : List Char) :
    (∀ n, read? s = some n ↔ Denotes s n ∧ n < 2 ^ 64) ∧ (read? s = none ↔ ∀ n, Denotes s n → 2 ^ 64 ≤ n) := by
  refine ⟨fun n => read?_eq_some_iff_denotes, ?_⟩
  rw [Option.eq_none_iff_forall_ne_some]
  simp only [ne_eq, read?_eq_some_iff_denotes, not_and, Nat.not_lt]

example :
    read? "0Xf_F".toList = some 255 ∧ read? "18_446_744_073_709_551_615".toList = some (2 ^ 64 - 1) ∧
      read? "18446744073709551616".toList = none ∧ read? "+1".toList = none ∧ read? "0b".toList = none := by
  decide

end Integer

end OpcodeTables
