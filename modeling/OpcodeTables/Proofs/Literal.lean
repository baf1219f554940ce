import Mathlib.Algebra.Order.BigOperators.Group.List
import OpcodeTables.Proofs.Integer

/-!
# Integer literals of the generated languages

How a C++ compiler and a Rust compiler read the digits of an integer literal, and when that is the number that
`Integer.read?` gives (`cpp?_eq_some_iff`, `rustByte?_eq_some_iff`).
-/

namespace OpcodeTables.Literal

/-! ### Digits -/

def digitChars : List Char :=
  "0123456789abcdef".toList

/-- The value of a digit in either case. -/
def digit? (radix : Nat) (c : Char) : Option Nat :=
  (digitChars.idxOf? c.toLower).filter (· < radix)

/-- The number of one or more digits, the first one counting most. -/
def number? (radix : Nat) (ds : List Char) : Option Nat :=
  if ds = [] then none else (ds.mapM (digit? radix)).map fun vs => Nat.ofDigits radix vs.reverse

theorem digit?_eq_some_iff {radix d : Nat} {c : Char} :
    digit? radix c = some d ↔ digitChars.idxOf? c.toLower = some d ∧ d < radix := by
  simp [digit?, Option.filter_eq_some_iff]

/-- The radixes of literals. -/
def radixes : List Nat :=
  [2, 8, 10, 16]

theorem digit?_eq {radix : Nat} (hr : radix ∈ radixes) (c : Char) : digit? radix c = Integer.digit? radix c := by
  by_cases hc : c.toNat < 128
  · have all : ∀ radix ∈ radixes, ∀ n < 128, digit? radix (.ofNat n) = Integer.digit? radix (.ofNat n) := by
      decide +kernel
    have h := all radix hr c.toNat hc
    rwa [Char.ofNat_toNat] at h
  · -- beyond ASCII there are neither digits nor letters with a lower case
    have hz : ∀ d : Char, d.toNat < 128 → ¬ c ≤ d := by
      intro d hd h
      have : c.toNat ≤ d.toNat := h
      omega
    have hlower : c.toLower = c := by
      refine dif_neg ?_
      rintro ⟨-, h⟩
      exact hz 'Z' (by decide) h
    have hm : c ∉ digitChars := by
      intro h
      have hd : digitChars.all (·.toNat < 128) = true := by decide
      exact hc (by simpa using List.all_eq_true.1 hd c h)
    have hi : Integer.digit? radix c = none := by
      simp [Integer.digit?, hz '9' (by decide), hz 'z' (by decide), hz 'Z' (by decide)]
    rw [hi, digit?, hlower, List.idxOf?_eq_none_iff.2 hm]
    rfl

private theorem mapM_eq_some_iff {ds : List Char} {vs : List Nat} {f : Char → Option Nat} :
    ds.mapM f = some vs ↔ vs.map some = ds.map f := by
  induction ds generalizing vs with
  | nil => cases vs <;> simp
  | cons c ds ih =>
    rw [List.mapM_cons, List.map_cons, List.map_eq_cons_iff]
    cases hc : f c with
    | none => simp
    | some d => simp [Option.bind_eq_some_iff, ih, and_comm, @eq_comm _ vs]

theorem number?_eq_some_iff {radix n : Nat} {ds : List Char} :
    number? radix ds = some n ↔
      ds ≠ [] ∧ ∃ vs : List Nat, vs.map some = ds.map (digit? radix) ∧ Nat.ofDigits radix vs.reverse = n := by
  rw [number?]
  split
  · simp [*]
  · simp [*, Option.map_eq_some_iff, mapM_eq_some_iff]

theorem number?_eq {radix : Nat} (hr : radix ∈ radixes) {ds : List Char} (hne : ds ≠ []) :
    number? radix ds = Integer.value? radix ds := by
  ext n
  have hdigits : digit? radix = Integer.digit? radix := funext (digit?_eq hr)
  rw [number?_eq_some_iff, Integer.value?_eq_some_iff, hdigits]
  exact and_iff_right hne

theorem number?_of_underscore {radix : Nat} {ds : List Char} (h : '_' ∈ ds) : number? radix ds = none := by
  rw [Option.eq_none_iff_forall_ne_some]
  intro n hn
  obtain ⟨-, vs, hvs, -⟩ := number?_eq_some_iff.1 hn
  obtain ⟨d, -, hd⟩ := Integer.exists_of_map_some hvs h
  have hnone : digitChars.idxOf? ('_' : Char).toLower = none := by decide
  rw [digit?_eq_some_iff, hnone] at hd
  cases hd.1

theorem isDigit_of_number? {n : Nat} {ds : List Char} (h : number? 10 ds = some n) : ∀ c ∈ ds, c.isDigit := by
  obtain ⟨-, vs, hvs, -⟩ := number?_eq_some_iff.1 h
  intro c hc
  obtain ⟨d, -, hd⟩ := Integer.exists_of_map_some hvs hc
  rw [digit?_eq (by decide)] at hd
  exact Integer.isDigit_of_digit? (by decide) hd

/-! ### Octal digits -/

private theorem lt_of_map_digit? {radix : Nat} {ds : List Char} {vs : List Nat}
    (h : vs.map some = ds.map (digit? radix)) : ∀ d ∈ vs, d < radix := by
  intro d hd
  have hm := List.mem_map_of_mem (f := some) hd
  rw [h] at hm
  obtain ⟨c, -, hc⟩ := List.mem_map.1 hm
  exact (digit?_eq_some_iff.1 hc).2

/-- Digits that are small enough are digits in another radix. -/
private theorem map_digit?_of_lt {r radix : Nat} {ds : List Char} {vs : List Nat} (h : vs.map some = ds.map (digit? r))
    (hv : ∀ d ∈ vs, d < radix) : vs.map some = ds.map (digit? radix) := by
  rw [h]
  refine List.map_congr_left fun c hc => ?_
  obtain ⟨d, hd, hs⟩ := Integer.exists_of_map_some h hc
  rw [hs, eq_comm, digit?_eq_some_iff]
  exact ⟨(digit?_eq_some_iff.1 hs).1, hv d hd⟩

/-- Octal digits make the same number in base ten only when it is a single digit with zeros before it. -/
private theorem ofDigits_eight_eq_iff {vs : List Nat} (h : ∀ d ∈ vs, d < 8) :
    Nat.ofDigits 8 vs = Nat.ofDigits 10 vs ↔ Nat.ofDigits 10 vs < 8 := by
  cases vs with
  | nil => simp
  | cons d vs =>
    have hd := h d (by simp)
    have hle := Nat.ofDigits_monotone vs (show 8 ≤ 10 by decide)
    rw [Nat.ofDigits_cons, Nat.ofDigits_cons]
    omega

/-- Decimal digits are octal digits of the same number when the number is less than eight, and only then. -/
theorem number?_eight_iff {ds : List Char} {n : Nat} (h : number? 10 ds = some n) :
    number? 8 ds = some n ↔ n < 8 := by
  obtain ⟨hne, vs, hvs, rfl⟩ := number?_eq_some_iff.1 h
  constructor
  · intro h8
    obtain ⟨-, ws, hws, hn⟩ := number?_eq_some_iff.1 h8
    have hlt := lt_of_map_digit? hws
    -- a character has the same value as a digit in both radixes
    have hsame : ws.map some = vs.map some := by
      rw [hvs]
      exact map_digit?_of_lt hws fun d hd => Nat.lt_trans (hlt d hd) (by decide)
    rw [List.map_inj_right fun _ _ => Option.some.inj] at hsame
    subst hsame
    exact (ofDigits_eight_eq_iff (by simpa using hlt)).1 hn
  · intro hlt
    have hv : ∀ d ∈ vs, d < 8 := by
      intro d hd
      -- a number is at least as large as each of its digits
      have h1 := List.le_sum_of_mem (List.mem_reverse.2 hd)
      have h2 := Nat.sum_le_ofDigits vs.reverse (show 1 ≤ 10 by decide)
      omega
    exact number?_eq_some_iff.2
      ⟨hne, vs, map_digit?_of_lt hvs hv, (ofDigits_eight_eq_iff (by simpa using hv)).2 hlt⟩

/-! ### C++ -/

/-- The radix of a C++ literal and its digits: a leading zero is an octal digit. -/
def cppRadixAndDigits : List Char → Nat × List Char
  | '0' :: 'x' :: ds => (16, ds)
  | '0' :: 'X' :: ds => (16, ds)
  | '0' :: 'b' :: ds => (2, ds)
  | '0' :: 'B' :: ds => (2, ds)
  | '0' :: ds => (8, '0' :: ds)
  | ds => (10, ds)

/-- The number of a C++ literal; single apostrophes may stand between digits. -/
def cpp? (s : List Char) : Option Nat :=
  let (radix, ds) := cppRadixAndDigits s
  let groups := ds.splitOn '\''
  if [] ∈ groups then none else number? radix groups.flatten

/-- Whether a digit follows a leading zero. -/
def IsPadded (s : List Char) : Prop :=
  ∃ c ds, s = '0' :: c :: ds ∧ c.isDigit

private theorem cpp?_eq {s ds : List Char} {radix : Nat} (h : cppRadixAndDigits s = (radix, ds)) (ha : '\'' ∉ ds) :
    cpp? s = number? radix ds := by
  rw [cpp?, h]
  simp only [List.splitOn_eq_singleton ha, List.mem_singleton, List.flatten_singleton]
  split
  · rename_i he
    rw [number?, if_pos he.symm]
  · rfl

/-- Digits without underscores among those that `Integer.read?` takes make its number. -/
private theorem number?_eq_some_iff_of_read {radix n : Nat} (hr : radix ∈ radixes) {ds : List Char}
    (hne : ds.filter (· ≠ '_') ≠ []) (h : Integer.value? radix (ds.filter (· ≠ '_')) = some n) :
    number? radix ds = some n ↔ '_' ∉ ds := by
  by_cases hu : '_' ∈ ds
  · simp [number?_of_underscore hu, hu]
  · rw [Integer.filter_underscore_eq_self hu] at h hne
    simp [number?_eq hr hne, h, hu]

/-- A C++ compiler reads the number of a literal unless the literal has underscores, or zeros before a number that is
not a single octal digit. -/
theorem cpp?_eq_some_iff {s : List Char} {n : Nat} (h : Integer.read? s = some n) :
    cpp? s = some n ↔ '_' ∉ s ∧ (IsPadded s → n < 8) := by
  obtain ⟨-, -, hne, hv, -⟩ := Integer.read?_eq_some_iff.1 h
  have ha : '\'' ∉ s := fun hm => absurd (Integer.isTail_of_read? h hm) (by decide)
  rcases Integer.radixAndDigits_cases s with ⟨p, radix, ds, hp, rfl, hr⟩ | ⟨hs, hr⟩
  · have hp' : cppRadixAndDigits ('0' :: p :: ds) = (radix, ds) ∧ radix ∈ radixes ∧ p ≠ '_' ∧ p.isDigit = false := by
      simp only [Integer.prefixes, List.mem_cons, Prod.mk.injEq, List.not_mem_nil, or_false] at hp
      rcases hp with ⟨rfl, rfl⟩ | ⟨rfl, rfl⟩ | ⟨rfl, rfl⟩ | ⟨rfl, rfl⟩ <;> exact ⟨rfl, by decide, by decide, rfl⟩
    obtain ⟨hc, hradix, hu, hd⟩ := hp'
    have hpad : ¬ IsPadded ('0' :: p :: ds) := by
      rintro ⟨c, ds', he, hc⟩
      cases he
      rw [hd] at hc
      cases hc
    rw [hr] at hne hv
    rw [cpp?_eq hc fun hm => ha (by simp [hm]), number?_eq_some_iff_of_read hradix hne hv]
    simp [hpad, hu.symm]
  · rw [hr] at hne hv
    by_cases hz : s.head? = some '0'
    · have hc : cppRadixAndDigits s = (8, s) := by
        unfold cppRadixAndDigits
        split
        · exact absurd rfl (hs 'x' 16 _ (by decide))
        · exact absurd rfl (hs 'X' 16 _ (by decide))
        · exact absurd rfl (hs 'b' 2 _ (by decide))
        · exact absurd rfl (hs 'B' 2 _ (by decide))
        · rfl
        · rename_i hn
          exact absurd (List.eq_cons_of_mem_head? hz) (hn _)
      obtain ⟨ds, rfl⟩ : ∃ ds, s = '0' :: ds := ⟨s.tail, List.eq_cons_of_mem_head? hz⟩
      rw [cpp?_eq hc ha]
      by_cases hu : '_' ∈ '0' :: ds
      · simp [number?_of_underscore hu, hu]
      · have hten := (number?_eq_some_iff_of_read (show 10 ∈ radixes by decide) hne hv).2 hu
        rw [number?_eight_iff hten]
        refine ⟨fun hlt => ⟨hu, fun _ => hlt⟩, fun h => ?_⟩
        -- a zero alone is zero
        cases ds with
        | nil =>
          have hzero : number? 10 ['0'] = some 0 := rfl
          rw [hzero] at hten
          cases hten
          decide
        | cons c ds => exact h.2 ⟨c, ds, rfl, isDigit_of_number? hten c (by simp)⟩
    · have hc : cppRadixAndDigits s = (10, s) := by
        unfold cppRadixAndDigits
        split <;> simp at hz ⊢
      have hpad : ¬ IsPadded s := by
        rintro ⟨c, ds, rfl, -⟩
        exact hz rfl
      rw [cpp?_eq hc ha, number?_eq_some_iff_of_read (show 10 ∈ radixes by decide) hne hv]
      simp [hpad]

/-! ### Rust -/

/-- The radix of a Rust literal and its digits; the letters of prefixes are small. -/
def rustRadixAndDigits : List Char → Nat × List Char
  | '0' :: 'x' :: ds => (16, ds)
  | '0' :: 'b' :: ds => (2, ds)
  | ds => (10, ds)

/-- The byte of a Rust literal; underscores may stand between digits and behind them. -/
def rustByte? (s : List Char) : Option Nat :=
  let (radix, ds) := rustRadixAndDigits s
  if s.head? = some '_' then none else (number? radix (ds.filter (· ≠ '_'))).filter (· < 256)

/-- A Rust compiler reads the byte of a literal unless its prefix has a capital letter. -/
theorem rustByte?_eq_some_iff {s : List Char} {n : Nat} (h : Integer.read? s = some n) (hn : n < 256) :
    rustByte? s = some n ↔ ¬ ['0', 'X'] <+: s ∧ ¬ ['0', 'B'] <+: s := by
  obtain ⟨hu, -, hne, hv, -⟩ := Integer.read?_eq_some_iff.1 h
  have hbyte : ∀ {radix ds}, radix ∈ radixes → ds.filter (· ≠ '_') ≠ [] → rustRadixAndDigits s = (radix, ds) →
      s.head? ≠ some '_' → Integer.value? radix (ds.filter (· ≠ '_')) = some n → rustByte? s = some n := by
    intro radix ds hr hne hs hh hv
    rw [rustByte?, hs]
    simp only [if_neg hh, number?_eq hr hne, hv, Option.filter_some, hn, decide_true, if_true]
  -- a capital letter is not a decimal digit
  have hletter : ∀ {p ds}, p = 'X' ∨ p = 'B' → rustByte? ('0' :: p :: ds) ≠ some n := by
    rintro p ds hp hb
    have hc : rustRadixAndDigits ('0' :: p :: ds) = (10, '0' :: p :: ds) := by rcases hp with rfl | rfl <;> rfl
    rw [rustByte?, hc] at hb
    simp only [List.head?_cons, Option.some.injEq, show ¬ '0' = '_' by decide, if_false,
      Option.filter_eq_some_iff] at hb
    have hd := isDigit_of_number? hb.1 p (by rcases hp with rfl | rfl <;> simp)
    rcases hp with rfl | rfl <;> cases hd
  rcases Integer.radixAndDigits_cases s with ⟨p, radix, ds, hp, rfl, hr⟩ | ⟨hs, hr⟩
  · rw [hr] at hne hv
    simp only [Integer.prefixes, List.mem_cons, Prod.mk.injEq, List.not_mem_nil, or_false] at hp
    rcases hp with ⟨rfl, rfl⟩ | ⟨rfl, rfl⟩ | ⟨rfl, rfl⟩ | ⟨rfl, rfl⟩
    · exact iff_of_true (hbyte (by decide) hne rfl (by simp) hv) (by simp)
    · exact iff_of_false (hletter (by decide)) (by simp)
    · exact iff_of_true (hbyte (by decide) hne rfl (by simp) hv) (by simp)
    · exact iff_of_false (hletter (by decide)) (by simp)
  · rw [hr] at hu hne hv
    have hc : rustRadixAndDigits s = (10, s) := by
      unfold rustRadixAndDigits
      split
      · exact absurd rfl (hs 'x' 16 _ (by decide))
      · exact absurd rfl (hs 'b' 2 _ (by decide))
      · rfl
    refine iff_of_true (hbyte (by decide) hne hc hu hv) ⟨?_, ?_⟩
    · rintro ⟨ds, rfl⟩
      exact hs 'X' 16 ds (by decide) rfl
    · rintro ⟨ds, rfl⟩
      exact hs 'B' 2 ds (by decide) rfl

end OpcodeTables.Literal
