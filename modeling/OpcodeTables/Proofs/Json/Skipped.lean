import OpcodeTables.Proofs.Json.Takes

/-!
# Values that nobody reads

The compact texts of values of any kind and depth (`IsValue`).  Nobody reads such a value where a record has no member
for it, and then it is skipped to its end (`IsValue.skips`).  The induction is on the value: a list or map goes on with
its next part where the part before it ends (`skipFirst_parts`), whatever is on the stack of open lists and maps.
-/

namespace OpcodeTables.Json

open Reader (ofChars_intercalate parts)
open Utf8 (ofChars)

/-! ### Numbers -/

def IsDigits (cs : List Char) : Prop :=
  cs ≠ [] ∧ ∀ c ∈ cs, c.isDigit

/-- A point with digits, or nothing. -/
def IsFraction (cs : List Char) : Prop :=
  cs = [] ∨ ∃ ds, IsDigits ds ∧ cs = '.' :: ds

/-- An `e` with a sign or none and digits, or nothing. -/
def IsExponent (cs : List Char) : Prop :=
  cs = [] ∨ ∃ e sign ds, e ∈ ['e', 'E'] ∧ sign ∈ [[], ['+'], ['-']] ∧ IsDigits ds ∧ cs = e :: sign ++ ds

/-- A number: no zero stands in front of other digits of its integer part. -/
def IsNumber (cs : List Char) : Prop :=
  ∃ sign whole fraction exponent, sign ∈ [[], ['-']] ∧ IsDigits whole ∧ (whole.head? = some '0' → whole = ['0']) ∧
    IsFraction fraction ∧ IsExponent exponent ∧ cs = sign ++ (whole ++ (fraction ++ exponent))

/-- What follows starts with no digit. -/
def NoDigit (s : List UInt8) : Prop :=
  ∀ b ∈ s.head?, isDigit b = false

theorem Ends.noDigit {s : List UInt8} (h : Ends s) : NoDigit s :=
  fun b hb => (h b hb).1

private theorem noDigit_cons {c : Char} (hc : c.toNat < 0x80) (h : isDigit (.ofNat c.toNat) = false) (cs : List Char)
    (s : List UInt8) : NoDigit (ofChars (c :: cs) ++ s) := by
  rw [Utf8.ofChars_cons_ascii hc]
  intro b hb
  obtain rfl : UInt8.ofNat c.toNat = b := by simpa using hb
  exact h

private theorem exponentLetter {e : Char} (h : e ∈ ['e', 'E']) :
    e.toNat < 0x80 ∧ isDigit (.ofNat e.toNat) = false ∧ UInt8.ofNat e.toNat ≠ point ∧
      (UInt8.ofNat e.toNat = 0x65 ∨ UInt8.ofNat e.toNat = 0x45) := by
  simp only [List.mem_cons, List.not_mem_nil, or_false] at h
  rcases h with rfl | rfl <;> decide

theorem IsExponent.noDigit {cs : List Char} (h : IsExponent cs) {s : List UInt8} (hs : Ends s) :
    NoDigit (ofChars cs ++ s) := by
  rcases h with rfl | ⟨e, sign, ds, he, -, -, rfl⟩
  · exact hs.noDigit
  · obtain ⟨hlt, hdigit, -⟩ := exponentLetter he
    exact noDigit_cons hlt hdigit _ s

theorem IsFraction.noDigit {cs ds : List Char} (h : IsFraction cs) (hds : IsExponent ds) {s : List UInt8}
    (hs : Ends s) : NoDigit (ofChars (cs ++ ds) ++ s) := by
  rcases h with rfl | ⟨fs, -, rfl⟩
  · exact hds.noDigit hs
  · exact noDigit_cons (by decide) (by decide) _ s

theorem IsDigits.eq_cons {cs : List Char} (h : IsDigits cs) :
    ∃ c ds, cs = c :: ds ∧ isDigit (.ofNat c.toNat) = true ∧ c.toNat < 0x80 := by
  obtain ⟨hne, hdigit⟩ := h
  cases cs with
  | nil => exact absurd rfl hne
  | cons c ds =>
    obtain ⟨hlt, hd, -⟩ := isDigit_ofNat (hdigit c (by simp))
    exact ⟨c, ds, rfl, hd, hlt⟩

private theorem skipDigits_digits {cs : List Char} (h : IsDigits cs) {s : List UInt8} (hs : NoDigit s) :
    skipDigits (ofChars cs ++ s) = .ok s := by
  have hne : (cs.map fun c => c.toNat - '0'.toNat) ≠ [] := by simpa using h.1
  simp only [skipDigits, takeDigits_digits h.2 hs, hne, ↓reduceIte]

private theorem skipAfterFraction_exponent {cs : List Char} (h : IsExponent cs) {s : List UInt8} (hs : Ends s) :
    skipAfterFraction (ofChars cs ++ s) = .ok s := by
  rcases h with rfl | ⟨e, sign, ds, he, hsign, hds, rfl⟩
  · cases s with
    | nil => rfl
    | cons b s =>
      obtain ⟨-, -, he, hE⟩ := hs b rfl
      simp [skipAfterFraction, ofChars, he, hE]
  · obtain ⟨hlt, -, -, hbyte⟩ := exponentLetter he
    have hexponent : skipExponent (ofChars (sign ++ ds) ++ s) = .ok s := by
      have hskip := skipDigits_digits hds hs.noDigit
      simp only [List.mem_cons, List.not_mem_nil, or_false] at hsign
      rcases hsign with rfl | rfl | rfl
      · obtain ⟨d, ds, rfl, hd, hlt⟩ := hds.eq_cons
        rw [List.nil_append]
        rw [Utf8.ofChars_cons_ascii hlt, List.cons_append] at hskip ⊢
        have hplain : ∀ b, isDigit b = true → ¬ (b = plus ∨ b = minus) := by
          rintro b hb (rfl | rfl) <;> exact absurd hb (by decide)
        simp only [skipExponent, hplain _ hd, ↓reduceIte, hskip]
      · rw [List.singleton_append, Utf8.ofChars_cons_ascii (by decide), List.cons_append]
        exact hskip
      · rw [List.singleton_append, Utf8.ofChars_cons_ascii (by decide), List.cons_append]
        exact hskip
    rw [List.cons_append, Utf8.ofChars_cons_ascii hlt, List.cons_append, skipAfterFraction, if_pos hbyte, hexponent]

private theorem skipAfterInteger_fraction {cs ds : List Char} (h : IsFraction cs) (hds : IsExponent ds)
    {s : List UInt8} (hs : Ends s) : skipAfterInteger (ofChars (cs ++ ds) ++ s) = .ok s := by
  have hrest := skipAfterFraction_exponent hds hs
  rcases h with rfl | ⟨fs, hfs, rfl⟩
  · rw [List.nil_append]
    rcases hds with rfl | ⟨e, sign, es, he, -, -, rfl⟩
    · cases s with
      | nil => rfl
      | cons b s =>
        have hpoint := (hs b rfl).2.1
        simpa [skipAfterInteger, ofChars, hpoint] using hrest
    · obtain ⟨hlt, -, hpoint, -⟩ := exponentLetter he
      rw [List.cons_append, Utf8.ofChars_cons_ascii hlt, List.cons_append] at hrest ⊢
      rw [skipAfterInteger, if_neg hpoint, hrest]
  · rw [List.cons_append, Utf8.ofChars_cons_ascii (by decide), Utf8.ofChars_append, List.cons_append, List.append_assoc,
      skipAfterInteger]
    simp only [show UInt8.ofNat '.'.toNat = point by decide, ↓reduceIte, skipDigits_digits hfs (hds.noDigit hs), hrest]

private theorem skipUnsigned_whole {whole cs ds : List Char} (hdigits : IsDigits whole)
    (hzero : whole.head? = some '0' → whole = ['0']) (h : IsFraction cs) (hds : IsExponent ds) {s : List UInt8}
    (hs : Ends s) : skipUnsigned (ofChars (whole ++ (cs ++ ds)) ++ s) = .ok s := by
  have hrest := skipAfterInteger_fraction h hds hs
  have hnoDigit := h.noDigit hds hs
  have htake := takeDigits_digits hdigits.2 hnoDigit
  obtain ⟨d, ws, rfl, hd, hlt⟩ := hdigits.eq_cons
  rw [Utf8.ofChars_append, List.append_assoc]
  rw [Utf8.ofChars_cons_ascii hlt, List.cons_append] at htake ⊢
  by_cases hz : d = '0'
  · subst hz
    obtain rfl : ws = [] := by simpa using hzero rfl
    have hhead : (ofChars (cs ++ ds) ++ s).head?.any isDigit = false := by
      cases hb : (ofChars (cs ++ ds) ++ s).head? with
      | none => rfl
      | some b => exact hnoDigit b hb
    simp only [skipUnsigned, show UInt8.ofNat '0'.toNat = zero by decide, ↓reduceIte, ofChars, List.flatMap_nil,
      List.nil_append]
    rw [if_neg (by simpa [ofChars] using hhead)]
    exact hrest
  · have hz : UInt8.ofNat d.toNat ≠ zero := by
      intro h
      have h : d.toNat % 256 = 0x30 := by
        rw [← UInt8.toNat_ofNat', h]
        rfl
      exact hz (Char.toNat_inj.1 (show d.toNat = 0x30 by omega))
    simp only [skipUnsigned, hz, hd, ↓reduceIte, htake, hrest]

theorem IsNumber.eq_cons {cs : List Char} (h : IsNumber cs) :
    ∃ b t, ofChars cs = b :: t ∧ (b = minus ∨ isDigit b = true) := by
  obtain ⟨sign, whole, fraction, exponent, hsign, hwhole, -, -, -, rfl⟩ := h
  simp only [List.mem_cons, List.not_mem_nil, or_false] at hsign
  rcases hsign with rfl | rfl
  · obtain ⟨d, ds, rfl, hd, hlt⟩ := hwhole.eq_cons
    exact ⟨_, _, Utf8.ofChars_cons_ascii hlt _, .inr hd⟩
  · exact ⟨minus, _, Utf8.ofChars_cons_ascii (by decide) _, .inl rfl⟩

theorem IsNumber.skipNumber_eq {cs : List Char} (h : IsNumber cs) {s : List UInt8} (hs : Ends s) :
    skipNumber (ofChars cs ++ s) = .ok s := by
  obtain ⟨sign, whole, fraction, exponent, hsign, hwhole, hzero, hfraction, hexponent, rfl⟩ := h
  have hskip := skipUnsigned_whole hwhole hzero hfraction hexponent hs
  simp only [List.mem_cons, List.not_mem_nil, or_false] at hsign
  rcases hsign with rfl | rfl
  · obtain ⟨d, ds, rfl, hd, hlt⟩ := hwhole.eq_cons
    rw [List.nil_append]
    rw [List.cons_append, Utf8.ofChars_cons_ascii hlt, List.cons_append] at hskip ⊢
    have hminus : UInt8.ofNat d.toNat ≠ minus := by
      intro h
      rw [h] at hd
      exact absurd hd (by decide)
    rw [skipNumber, if_neg hminus, hskip]
  · rw [List.singleton_append, Utf8.ofChars_cons_ascii (by decide), List.cons_append, skipNumber, if_pos (by decide),
      hskip]

/-! ### Texts -/

/-- A piece of a text between quotes.  The four digits of an escape may spell any number. -/
inductive IsPiece : List Char → Prop
  | plain {c : Char} (quote : c ≠ '"') (backslash : c ≠ '\\') (control : 0x20 ≤ c.toNat) : IsPiece [c]
  | short {l c : Char} (mem : (l, c) ∈ shortEscapes) : IsPiece ['\\', l]
  | unit {n : Nat} {ds : List Char} (digits : IsUnit n ds) : IsPiece ('\\' :: 'u' :: ds)

def IsText (cs : List Char) : Prop :=
  ∃ pieces : List (List Char), (∀ p ∈ pieces, IsPiece p) ∧ cs = '"' :: pieces.flatten ++ ['"']

private theorem skipText_append {bs : List UInt8} (h : ∀ b ∈ bs, b ≠ quoteMark ∧ b ≠ backslash ∧ 0x20 ≤ b)
    (s : List UInt8) : skipText (bs ++ s) = skipText s := by
  induction bs with
  | nil => rfl
  | cons b bs ih =>
    obtain ⟨hq, hb, hc⟩ := h b (by simp)
    have hc : ¬ b < 0x20 := UInt8.not_lt.2 hc
    rw [List.cons_append, skipText.eq_def]
    simp only [hq, hb, hc, ↓reduceIte, ih fun d hd => h d (by simp [hd])]

private theorem IsPiece.skipText_eq {cs : List Char} (h : IsPiece cs) (s : List UInt8) :
    skipText (ofChars cs ++ s) = skipText s := by
  have hquote : backslash ≠ quoteMark := by decide
  cases h with
  | plain quote slash control =>
    simp only [ofChars, List.flatMap_cons, List.flatMap_nil, List.append_nil]
    exact skipText_append (mem_utf8EncodeChar_of_plain quote slash control) s
  | @short l _ mem =>
    obtain ⟨hl, hu, hshort⟩ := shortEscape?_of_mem mem
    rw [Utf8.ofChars_cons_ascii (by decide), Utf8.ofChars_cons_ascii hl, List.cons_append, List.cons_append,
      skipText.eq_def]
    simp only [show UInt8.ofNat '\\'.toNat = backslash by decide, hquote, hu, hshort, ↓reduceIte, Option.isSome_some]
    rfl
  | unit digits =>
    rw [Utf8.ofChars_cons_ascii (by decide), Utf8.ofChars_cons_ascii (by decide), List.cons_append, List.cons_append,
      skipText.eq_def]
    simp only [show UInt8.ofNat '\\'.toNat = backslash by decide, show UInt8.ofNat 'u'.toNat = 0x75 by decide, hquote,
      ↓reduceIte]
    split
    · rename_i hf
      simp [digits.fourHex_eq] at hf
    · rename_i hf
      rw [digits.fourHex_eq] at hf
      simp only [Except.ok.injEq, Prod.mk.injEq] at hf
      rw [hf.2]

theorem IsText.skipText_eq {cs : List Char} (h : IsText cs) :
    ∃ bs, ofChars cs = quoteMark :: bs ∧ ∀ s, skipText (bs ++ s) = .ok s := by
  obtain ⟨pieces, hpieces, rfl⟩ := h
  refine ⟨ofChars pieces.flatten ++ [quoteMark], ?_, fun s => ?_⟩
  · rw [List.cons_append, Utf8.ofChars_cons_ascii (by decide), Utf8.ofChars_append]
    rfl
  · rw [List.append_assoc, List.singleton_append]
    induction pieces with
    | nil =>
      rw [List.flatten_nil, skipText.eq_def]
      rfl
    | cons p pieces ih =>
      rw [List.flatten_cons, Utf8.ofChars_append, List.append_assoc, (hpieces p (by simp)).skipText_eq]
      exact ih fun q hq => hpieces q (by simp [hq])

/-! ### Values -/

/-- Parts between brackets, divided by commas. -/
def enclosed (opening closing : Char) (ps : List (List Char)) : List Char :=
  opening :: List.intercalate [','] ps ++ [closing]

theorem ofChars_enclosed {opening closing : Char} (ho : opening.toNat < 0x80) (hc : closing.toNat < 0x80)
    (ps : List (List Char)) :
    ofChars (enclosed opening closing ps) =
      .ofNat opening.toNat :: (parts [] [] (ps.map ofChars) ++ [.ofNat closing.toNat]) := by
  rw [enclosed, List.cons_append, Utf8.ofChars_cons_ascii ho, Utf8.ofChars_append, ofChars_intercalate,
    Utf8.ofChars_cons_ascii hc]
  rfl

/-- The compact texts of values. -/
inductive IsValue : List Char → Prop
  | null : IsValue ['n', 'u', 'l', 'l']
  | boolean (b : Bool) : IsValue (toString b).toList
  | number {cs : List Char} (h : IsNumber cs) : IsValue cs
  | text {cs : List Char} (h : IsText cs) : IsValue cs
  | list {elements : List (List Char)} (values : ∀ cs ∈ elements, IsValue cs) :
    IsValue (enclosed '[' ']' elements)
  | map (members : List (List Char × List Char)) (keys : ∀ m ∈ members, IsText m.1)
    (values : ∀ m ∈ members, IsValue m.2) :
    IsValue (enclosed '{' '}' (members.map fun m => m.1 ++ ':' :: m.2))

/-- The bytes of a value are skipped, wherever they stand. -/
structure Skips (bs : List UInt8) : Prop where
  starts : Starts bs
  skipValue_eq : ∀ {stack ws s}, Blank ws → Ends s → skipValue stack (ws ++ (bs ++ s)) = skipRest stack s

/-! ### Steps -/

private def Container.opening : Container → UInt8
  | .list => openList
  | .map => openMap

private theorem skipValue_opening {c : Container} {stack : List Container} {s r : List UInt8}
    (h : dropBlanks s = c.opening :: r) : skipValue stack s = skipFirst c stack r := by
  rw [skipValue]
  split
  · rename_i hs
    simp [h] at hs
  · rename_i hs
    rw [h] at hs
    cases hs
    cases c with
    | list => rfl
    | map => rfl

private theorem skipValue_leaf {stack : List Container} {b : UInt8} {s r t : List UInt8} (h : dropBlanks s = b :: r)
    (hlist : b ≠ openList) (hmap : b ≠ openMap) (hleaf : skipLeaf (b :: r) = .ok t) :
    skipValue stack s = skipRest stack t := by
  rw [skipValue]
  split
  · rename_i hs
    simp [h] at hs
  · rename_i hs
    rw [h] at hs
    cases hs
    simp only [hlist, hmap, ↓reduceIte]
    split
    · rename_i he
      simp [hleaf] at he
    · rename_i he
      rw [hleaf] at he
      cases he
      rfl

private theorem skipPart_map {stack : List Container} {s t : List UInt8} (h : skipKey s = .ok t) :
    skipPart .map stack s = skipValue (.map :: stack) t := by
  rw [skipPart]
  split
  · rename_i he
    simp [h] at he
  · rename_i he
    rw [h] at he
    cases he
    rfl

private theorem skipFirst_cons {c : Container} {stack : List Container} {b : UInt8} {r : List UInt8}
    (hb : isBlank b = false) :
    skipFirst c stack (b :: r) = if b = c.close then skipRest stack r else skipPart c stack (b :: r) := by
  rw [skipFirst]
  split
  · rename_i hs
    simp [dropBlanks_cons_of_not hb] at hs
  · rename_i hs
    rw [dropBlanks_cons_of_not hb] at hs
    cases hs
    rfl

private theorem skipRest_cons {c : Container} {stack : List Container} {b : UInt8} {r : List UInt8}
    (hb : isBlank b = false) (hc : b = comma ∨ b = c.close) :
    skipRest (c :: stack) (b :: r) = if b = comma then skipPart c stack r else skipRest stack r := by
  rw [skipRest]
  split
  · rename_i hs
    simp [dropBlanks_cons_of_not hb] at hs
  · rename_i hs
    rw [dropBlanks_cons_of_not hb] at hs
    cases hs
    by_cases hcomma : b = comma
    · simp only [hcomma, ↓reduceIte]
    · rw [if_neg hcomma, if_neg hcomma, if_pos (hc.resolve_left hcomma)]

/-! ### Parts of lists and maps -/

private theorem Container.close_ne (c : Container) : isBlank c.close = false ∧ c.close ≠ comma := by
  cases c <;> decide

private theorem Container.ends_close (c : Container) (s : List UInt8) : Ends (c.close :: s) := by
  cases c
  · exact ends_closeList s
  · exact ends_closeMap s

/-- A part of a list or map leads to the end of its value. -/
private def SkipsPart (c : Container) (stack : List Container) (p : List UInt8) : Prop :=
  (∃ b t, p = b :: t ∧ isBlank b = false ∧ b ≠ c.close) ∧
    ∀ s, Ends s → skipPart c stack (p ++ s) = skipRest (c :: stack) s

/-- After a part come the other parts and the end of the list or map. -/
private theorem skipRest_parts {c : Container} {stack : List Container} {ps : List (List UInt8)}
    (h : ∀ p ∈ ps, SkipsPart c stack p) (s : List UInt8) :
    skipRest (c :: stack) (ps.flatMap (fun p => comma :: ([] ++ p)) ++ c.close :: s) = skipRest stack s := by
  obtain ⟨hblank, hcomma⟩ := c.close_ne
  induction ps with
  | nil =>
    rw [List.flatMap_nil, List.nil_append, skipRest_cons hblank (.inr rfl), if_neg hcomma]
  | cons p ps ih =>
    have hends := ends_flatMap (fun p => [] ++ p) ps (c.ends_close s)
    rw [List.flatMap_cons, List.nil_append, List.append_assoc, List.cons_append,
      skipRest_cons (by decide) (.inl rfl), if_pos rfl, (h p (by simp)).2 _ hends,
      ih fun q hq => h q (by simp [hq])]

private theorem skipFirst_parts {c : Container} {stack : List Container} {ps : List (List UInt8)}
    (h : ∀ p ∈ ps, SkipsPart c stack p) (s : List UInt8) :
    skipFirst c stack (parts [] [] ps ++ c.close :: s) = skipRest stack s := by
  cases ps with
  | nil =>
    rw [parts, List.nil_append, skipFirst_cons c.close_ne.1, if_pos rfl]
  | cons p ps =>
    have hp := h p List.mem_cons_self
    have hrest := skipRest_parts (fun q hq => h q (List.mem_cons_of_mem p hq)) s
    have hends := ends_flatMap (fun p => [] ++ p) ps (c.ends_close s)
    have hstep := hp.2 _ hends
    rw [parts, List.nil_append, List.append_nil, List.append_assoc]
    obtain ⟨b, t, rfl, hblank, hclose⟩ := hp.1
    rw [List.cons_append] at hstep ⊢
    rw [skipFirst_cons hblank, if_neg hclose, hstep, hrest]

/-! ### Skipping -/

private theorem skips_leaf {b : UInt8} {bs : List UInt8} (hstarts : Starts (b :: bs)) (hlist : b ≠ openList)
    (hmap : b ≠ openMap) (h : ∀ s, Ends s → skipLeaf (b :: bs ++ s) = .ok s) : Skips (b :: bs) :=
  ⟨hstarts, fun {stack ws s} hw hs => by
    have hdrop : dropBlanks (ws ++ (b :: bs ++ s)) = b :: (bs ++ s) := by
      rw [dropBlanks_append hw, hstarts.dropBlanks, List.cons_append]
    exact skipValue_leaf hdrop hlist hmap (h s hs)⟩

private theorem skips_number {cs : List Char} (h : IsNumber cs) : Skips (ofChars cs) := by
  obtain ⟨b, t, ht, hb⟩ := h.eq_cons
  have hskip : ∀ s, Ends s → skipNumber (b :: t ++ s) = .ok s := ht ▸ fun s hs => h.skipNumber_eq hs
  have hfirst : isBlank b = false ∧ b ≠ closeList ∧ b ≠ quoteMark ∧ words.find? (·.1 = b) = none ∧ b ≠ openList ∧
      b ≠ openMap := by
    rcases hb with rfl | hb
    · decide
    · obtain ⟨hblank, hclose, hquote, hwords⟩ := of_isDigit hb
      refine ⟨hblank, hclose, hquote, hwords, ?_, ?_⟩ <;>
      · rintro rfl
        exact absurd hb (by decide)
  obtain ⟨hblank, hclose, hquote, hwords, hlist, hmap⟩ := hfirst
  rw [ht]
  refine skips_leaf ⟨b, t, rfl, hblank, hclose⟩ hlist hmap fun s hs => ?_
  have hskip := hskip s hs
  rw [List.cons_append] at hskip ⊢
  simp only [skipLeaf, hwords, hquote, hb, ↓reduceIte, hskip]

private theorem skips_text {cs : List Char} (h : IsText cs) : Skips (ofChars cs) := by
  obtain ⟨bs, hbs, hskip⟩ := h.skipText_eq
  have hwords : words.find? (·.1 = quoteMark) = none := by decide
  rw [hbs]
  refine skips_leaf ⟨quoteMark, bs, rfl, by decide, by decide⟩ (by decide) (by decide) fun s _ => ?_
  rw [List.cons_append]
  simp only [skipLeaf, hwords, ↓reduceIte, hskip]

/-- A list or map is skipped if its parts are. -/
private theorem skips_container {c : Container} {opening closing : Char} {ps : List (List Char)}
    (hbytes : ofChars (enclosed opening closing ps) = c.opening :: (parts [] [] (ps.map ofChars) ++ [c.close]))
    (h : ∀ p ∈ ps, ∀ stack, SkipsPart c stack (ofChars p)) : Skips (ofChars (enclosed opening closing ps)) := by
  have hstarts : isBlank c.opening = false ∧ c.opening ≠ closeList := by
    cases c <;> decide
  rw [hbytes]
  refine ⟨⟨c.opening, _, rfl, hstarts⟩, fun {stack ws s} hw _ => ?_⟩
  have hdrop : dropBlanks (ws ++ (c.opening :: (parts [] [] (ps.map ofChars) ++ [c.close]) ++ s)) =
      c.opening :: (parts [] [] (ps.map ofChars) ++ c.close :: s) := by
    rw [dropBlanks_append hw, List.cons_append, dropBlanks_cons_of_not hstarts.1, List.append_assoc,
      List.singleton_append]
  rw [skipValue_opening hdrop]
  refine skipFirst_parts (fun p hp => ?_) s
  obtain ⟨cs, hcs, rfl⟩ := List.mem_map.1 hp
  exact h cs hcs stack

private theorem skipsPart_list {bs : List UInt8} (h : Skips bs) (stack : List Container) :
    SkipsPart .list stack bs := by
  refine ⟨h.starts, fun s hs => ?_⟩
  rw [skipPart]
  exact h.skipValue_eq blank_nil hs

private theorem skipsPart_map {key value : List Char} (hkey : IsText key) (h : Skips (ofChars value))
    (stack : List Container) : SkipsPart .map stack (ofChars (key ++ ':' :: value)) := by
  obtain ⟨bs, hbs, hskip⟩ := hkey.skipText_eq
  have hbytes : ofChars (key ++ ':' :: value) = quoteMark :: (bs ++ colon :: ofChars value) := by
    rw [Utf8.ofChars_append, hbs, Utf8.ofChars_cons_ascii (by decide), List.cons_append]
    rfl
  rw [hbytes]
  refine ⟨⟨quoteMark, _, rfl, by decide, by decide⟩, fun s hs => ?_⟩
  have hcolon : takeColon (colon :: (ofChars value ++ s)) = .ok (ofChars value ++ s) := by
    simp [takeColon, dropBlanks_cons_of_not (show isBlank colon = false by decide)]
  have hk : skipKey (quoteMark :: (bs ++ colon :: ofChars value) ++ s) = .ok (ofChars value ++ s) := by
    rw [List.cons_append, List.append_assoc, List.cons_append, skipKey, dropBlanks_cons_of_not (by decide)]
    simp only [↓reduceIte, hskip, hcolon]
  rw [skipPart_map hk]
  exact h.skipValue_eq blank_nil hs

/-- A value is skipped to its end. -/
theorem IsValue.skips {cs : List Char} (h : IsValue cs) : Skips (ofChars cs) := by
  induction h with
  | null => exact skips_leaf ⟨0x6E, _, rfl, by decide, by decide⟩ (by decide) (by decide) fun _ _ => rfl
  | boolean b =>
    cases b with
    | true => exact skips_leaf ⟨0x74, _, rfl, by decide, by decide⟩ (by decide) (by decide) fun _ _ => rfl
    | false => exact skips_leaf ⟨0x66, _, rfl, by decide, by decide⟩ (by decide) (by decide) fun _ _ => rfl
  | number h => exact skips_number h
  | text h => exact skips_text h
  | list values ih =>
    have hbytes := ofChars_enclosed (show '['.toNat < 0x80 by decide) (show ']'.toNat < 0x80 by decide)
    exact skips_container (c := .list) (hbytes _) fun p hp stack => skipsPart_list (ih p hp) stack
  | map members keys values ih =>
    have hbytes := ofChars_enclosed (show '{'.toNat < 0x80 by decide) (show '}'.toNat < 0x80 by decide)
    refine skips_container (c := .map) (hbytes _) fun p hp stack => ?_
    obtain ⟨m, hm, rfl⟩ := List.mem_map.1 hp
    exact skipsPart_map (keys m hm) (ih m hm) stack

end OpcodeTables.Json
