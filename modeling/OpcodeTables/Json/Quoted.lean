import OpcodeTables.Json.Byte
import OpcodeTables.Json.Fault
import OpcodeTables.Text.Utf8

/-!
# JSON strings

Writing a text between quotes, and reading one after its opening quote. A reader returns what follows the closing
quote; what it returns is shorter than what it was given (`length_readText_lt`, `length_skipText_lt`).
-/

namespace OpcodeTables.Json

/-! ### Writing -/

/-- Quotes, backslashes and controls are escaped; everything else stands for itself. -/
def writtenChar (c : Char) : List Char :=
  if c = '"' then ['\\', '"']
  else if c = '\\' then ['\\', '\\']
  else if c = '\x08' then ['\\', 'b']
  else if c = '\x0c' then ['\\', 'f']
  else if c = '\n' then ['\\', 'n']
  else if c = '\r' then ['\\', 'r']
  else if c = '\t' then ['\\', 't']
  else if c.toNat < 0x20 then
    ['\\', 'u', '0', '0', Nat.digitChar (c.toNat / 16), Nat.digitChar (c.toNat % 16)]
  else [c]

def writtenText (s : String) : List Char :=
  '"' :: s.toList.flatMap writtenChar ++ ['"']

/-! ### Escapes -/

/-- The number that four hexadecimal digits spell. -/
def fourHex : List UInt8 → Except Fault (Nat × List UInt8)
  | a :: b :: c :: d :: s =>
    match hexDigit? a, hexDigit? b, hexDigit? c, hexDigit? d with
    | some a, some b, some c, some d => .ok (((a * 16 + b) * 16 + c) * 16 + d, s)
    | _, _, _, _ => .error .invalidEscape
  | _ => .error .endInString

theorem length_fourHex_lt {s r : List UInt8} {n : Nat} (h : fourHex s = .ok (n, r)) : r.length < s.length := by
  unfold fourHex at h
  split at h
  · split at h
    · simp only [Except.ok.injEq, Prod.mk.injEq] at h
      obtain ⟨-, rfl⟩ := h
      simp; omega
    · simp at h
  · simp at h

def isLeadingSurrogate (n : Nat) : Bool :=
  0xD800 ≤ n && n < 0xDC00

def isTrailingSurrogate (n : Nat) : Bool :=
  0xDC00 ≤ n && n < 0xE000

/-- The second half of a surrogate pair, which another `\u` escape must spell. -/
def trailingHalf (leading : Nat) : List UInt8 → Except Fault (Char × List UInt8)
  | [] => .error .endInString
  | [b] => .error (if b = backslash then .endInString else .unfinishedPair)
  | b :: c :: s =>
    if b ≠ backslash ∨ c ≠ 0x75 then .error .unfinishedPair
    else
      match fourHex s with
      | .error e => .error e
      | .ok (n, r) =>
        if isTrailingSurrogate n then .ok (.ofNat ((leading - 0xD800) * 0x400 + (n - 0xDC00) + 0x10000), r)
        else .error .loneSurrogate

/-- The character of an escape, after its `\u`. -/
def unicodeEscape (s : List UInt8) : Except Fault (Char × List UInt8) :=
  match fourHex s with
  | .error e => .error e
  | .ok (n, r) =>
    if isTrailingSurrogate n then .error .loneSurrogate
    else if isLeadingSurrogate n then trailingHalf n r
    else .ok (.ofNat n, r)

/-- The character of an escape of one letter. -/
def shortEscape? (b : UInt8) : Option Char :=
  if b = quoteMark then some '"'
  else if b = backslash then some '\\'
  else if b = 0x2F then some '/'
  else if b = 0x62 then some '\x08'
  else if b = 0x66 then some '\x0c'
  else if b = 0x6E then some '\n'
  else if b = 0x72 then some '\r'
  else if b = 0x74 then some '\t'
  else none

/-- The character of an escape, after its backslash. -/
def escape : List UInt8 → Except Fault (Char × List UInt8)
  | [] => .error .endInString
  | b :: s =>
    if b = 0x75 then unicodeEscape s
    else
      match shortEscape? b with
      | some c => .ok (c, s)
      | none => .error .invalidEscape

private theorem length_trailingHalf_lt {n : Nat} {s r : List UInt8} {c : Char}
    (h : trailingHalf n s = .ok (c, r)) : r.length < s.length := by
  unfold trailingHalf at h
  split at h
  · simp at h
  · simp at h
  · split at h
    · simp at h
    · split at h
      · simp at h
      · rename_i hr
        split at h
        · simp only [Except.ok.injEq, Prod.mk.injEq] at h
          obtain ⟨-, rfl⟩ := h
          have := length_fourHex_lt hr
          simp; omega
        · simp at h

private theorem length_unicodeEscape_lt {s r : List UInt8} {c : Char} (h : unicodeEscape s = .ok (c, r)) :
    r.length < s.length := by
  unfold unicodeEscape at h
  split at h
  · simp at h
  · rename_i hr
    have := length_fourHex_lt hr
    split at h
    · simp at h
    · split at h
      · exact Nat.lt_trans (length_trailingHalf_lt h) this
      · simp only [Except.ok.injEq, Prod.mk.injEq] at h
        obtain ⟨-, rfl⟩ := h
        exact this

theorem length_escape_lt {s r : List UInt8} {c : Char} (h : escape s = .ok (c, r)) : r.length < s.length := by
  unfold escape at h
  split at h
  · simp at h
  · split at h
    · exact Nat.lt_succ_of_lt (length_unicodeEscape_lt h)
    · split at h
      · simp only [Except.ok.injEq, Prod.mk.injEq] at h
        obtain ⟨-, rfl⟩ := h
        simp
      · simp at h

/-! ### Reading -/

/-- The bytes of a text up to its closing quote, escapes resolved. -/
def textBytes (s : List UInt8) : Except Fault (List UInt8 × List UInt8) :=
  match s with
  | [] => .error .endInString
  | b :: s =>
    if b = quoteMark then .ok ([], s)
    else if b = backslash then
      match h : escape s with
      | .error e => .error e
      | .ok (c, r) =>
        have := length_escape_lt h
        (textBytes r).map fun t => (String.utf8EncodeChar c ++ t.1, t.2)
    else if b < 0x20 then .error .controlCharacter
    else (textBytes s).map fun t => (b :: t.1, t.2)
termination_by s.length

/-- The text up to the closing quote. -/
def readText (s : List UInt8) : Except Fault (String × List UInt8) :=
  match textBytes s with
  | .error e => .error e
  | .ok (bs, r) =>
    match Utf8.decode? bs with
    | some t => .ok (t, r)
    | none => .error .invalidText

/-- What follows the closing quote of a text that nobody reads: its bytes need not be UTF-8, and its surrogates need
not be paired. -/
def skipText (s : List UInt8) : Except Fault (List UInt8) :=
  match s with
  | [] => .error .endInString
  | b :: s =>
    if b = quoteMark then .ok s
    else if b = backslash then
      match s with
      | [] => .error .endInString
      | c :: s =>
        if c = 0x75 then
          match h : fourHex s with
          | .error e => .error e
          | .ok (_, r) =>
            have := length_fourHex_lt h
            skipText r
        else if (shortEscape? c).isSome then skipText s
        else .error .invalidEscape
    else if b < 0x20 then .error .controlCharacter
    else skipText s
termination_by s.length

theorem length_textBytes_lt {s : List UInt8} {t : List UInt8 × List UInt8} (h : textBytes s = .ok t) :
    t.2.length < s.length := by
  fun_induction textBytes s generalizing t with
  | case1 => simp at h
  | case2 s =>
    simp only [Except.ok.injEq] at h
    subst h
    simp
  | case3 => simp at h
  | case4 s c r he _ hr ih =>
    obtain ⟨u, hu, rfl⟩ := map_eq_ok_iff.1 h
    have := ih hu
    simp; omega
  | case5 => simp at h
  | case6 b s _ _ _ ih =>
    obtain ⟨u, hu, rfl⟩ := map_eq_ok_iff.1 h
    have := ih hu
    simp; omega

theorem length_readText_lt {s r : List UInt8} {t : String} (h : readText s = .ok (t, r)) : r.length < s.length := by
  unfold readText at h
  split at h
  · simp at h
  · rename_i hb
    split at h
    · simp only [Except.ok.injEq, Prod.mk.injEq] at h
      obtain ⟨-, rfl⟩ := h
      exact length_textBytes_lt hb
    · simp at h

theorem length_skipText_lt {s r : List UInt8} (h : skipText s = .ok r) : r.length < s.length := by
  fun_induction skipText s with
  | case1 | case3 | case4 | case7 | case8 => simp at h
  | case2 s =>
    simp only [Except.ok.injEq] at h
    simp [h]
  | case5 s n r' _ _ hr ih =>
    have := ih h
    simp; omega
  | case6 b s _ _ _ ih =>
    have := ih h
    simp; omega
  | case9 b s _ _ _ ih =>
    have := ih h
    simp; omega

end OpcodeTables.Json
