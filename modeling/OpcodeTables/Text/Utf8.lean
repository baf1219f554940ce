/-!
# UTF-8

The bytes of a text, reading them back, and the place of the first fault in bytes that are no text. Reading accepts
exactly what writing produces (`decode?_eq_some_iff`).
-/

namespace OpcodeTables.Utf8

def encode (s : String) : List UInt8 :=
  s.toByteArray.data.toList

def decode? (bs : List UInt8) : Option String :=
  String.fromUTF8? bs.toByteArray

theorem decode?_eq_some_iff {bs : List UInt8} {s : String} : decode? bs = some s ↔ bs = encode s := by
  unfold decode? String.fromUTF8? encode
  constructor
  · intro h
    split at h
    · simp only [Option.some.injEq] at h
      subst h
      simp [String.fromUTF8]
    · simp at h
  · rintro rfl
    have hb : s.toByteArray.data.toList.toByteArray = s.toByteArray := by
      apply ByteArray.ext
      simp
    simp only [hb, s.isValidUTF8, ↓reduceDIte]
    rfl

/-- A text is written character by character. -/
theorem encode_eq_flatMap (s : String) : encode s = s.toList.flatMap String.utf8EncodeChar := by
  rw [encode, ← String.utf8Encode_toList]
  simp [List.utf8Encode]

/-! ### Characters -/

/-- The bytes of characters. -/
def ofChars (cs : List Char) : List UInt8 :=
  cs.flatMap String.utf8EncodeChar

theorem encode_ofList (cs : List Char) : encode (String.ofList cs) = ofChars cs := by
  rw [encode_eq_flatMap, String.toList_ofList, ofChars]

@[simp] theorem ofChars_append (cs ds : List Char) : ofChars (cs ++ ds) = ofChars cs ++ ofChars ds :=
  List.flatMap_append

theorem ofChars_cons_ascii {c : Char} (h : c.toNat < 0x80) (cs : List Char) :
    ofChars (c :: cs) = .ofNat c.toNat :: ofChars cs := by
  have hv : c.val.toNat ≤ 0x7F := Nat.le_of_lt_succ h
  simp only [ofChars, List.flatMap_cons, String.utf8EncodeChar, hv, ↓reduceIte]
  rfl

/-- Every byte of a character beyond ASCII has its highest bit set. -/
theorem le_of_mem_utf8EncodeChar {c : Char} (h : 0x80 ≤ c.toNat) {b : UInt8} (hb : b ∈ String.utf8EncodeChar c) :
    0x80 ≤ b := by
  have hv : ¬ c.val.toNat ≤ 0x7F := Nat.not_le.2 h
  have high : ∀ n m : Nat, 0x80 ≤ m → n + m < 256 → (0x80 : UInt8) ≤ .ofNat (n + m) := by
    intro n m hm hlt
    rw [UInt8.le_iff_toNat_le, UInt8.toNat_ofNat']
    simp only [UInt8.reduceToNat]
    omega
  simp only [String.utf8EncodeChar, hv, ↓reduceIte] at hb
  split at hb
  · simp only [List.mem_cons, List.not_mem_nil, or_false] at hb
    rcases hb with rfl | rfl
    all_goals exact high _ _ (by omega) (by omega)
  · split at hb
    · simp only [List.mem_cons, List.not_mem_nil, or_false] at hb
      rcases hb with rfl | rfl | rfl
      all_goals exact high _ _ (by omega) (by omega)
    · simp only [List.mem_cons, List.not_mem_nil, or_false] at hb
      rcases hb with rfl | rfl | rfl | rfl
      all_goals exact high _ _ (by omega) (by omega)

/-! ### Faults -/

/-- Where reading stops: the index of the first byte of a bad sequence, and the number of its bytes, or none when the
bytes end inside it. -/
structure Fault where
  index : Nat
  length : Option Nat
deriving Repr, DecidableEq

/-- The ranges in which the bytes after a leading byte must lie, or none for a byte that leads no sequence. -/
def followers (b : UInt8) : Option (List (UInt8 × UInt8)) :=
  if b < 0x80 then some []
  else if b < 0xC2 then none
  else if b < 0xE0 then some [(0x80, 0xBF)]
  else if b = 0xE0 then some [(0xA0, 0xBF), (0x80, 0xBF)]
  else if b = 0xED then some [(0x80, 0x9F), (0x80, 0xBF)]
  else if b < 0xF0 then some [(0x80, 0xBF), (0x80, 0xBF)]
  else if b = 0xF0 then some [(0x90, 0xBF), (0x80, 0xBF), (0x80, 0xBF)]
  else if b < 0xF4 then some [(0x80, 0xBF), (0x80, 0xBF), (0x80, 0xBF)]
  else if b = 0xF4 then some [(0x80, 0x8F), (0x80, 0xBF), (0x80, 0xBF)]
  else none

/-- The bytes left after those that must lie in the given ranges; otherwise the number of bytes accepted so far,
starting from `n`, or none at the end of the bytes. -/
def follow (n : Nat) : List (UInt8 × UInt8) → List UInt8 → Except (Option Nat) (List UInt8)
  | [], bs => .ok bs
  | _ :: _, [] => .error none
  | r :: rs, b :: bs => if r.1 ≤ b ∧ b ≤ r.2 then follow (n + 1) rs bs else .error (some n)

theorem length_follow {n : Nat} {rs : List (UInt8 × UInt8)} {bs rest : List UInt8}
    (h : follow n rs bs = .ok rest) : rest.length ≤ bs.length := by
  induction rs generalizing n bs with
  | nil => simp only [follow, Except.ok.injEq] at h; simp [h]
  | cons r rs ih =>
    cases bs with
    | nil => simp [follow] at h
    | cons b bs =>
      simp only [follow] at h
      split at h
      · exact Nat.le_succ_of_le (ih h)
      · simp at h

/-- The first fault of bytes that start at index `i`. At the end of the bytes a sequence is missing. -/
def faultFrom (i : Nat) (bs : List UInt8) : Fault :=
  match bs with
  | [] => ⟨i, none⟩
  | b :: bs =>
    match followers b with
    | none => ⟨i, some 1⟩
    | some rs =>
      match h : follow 1 rs bs with
      | .error n => ⟨i, n⟩
      | .ok rest => faultFrom (i + 1 + rs.length) rest
termination_by bs.length
decreasing_by exact Nat.lt_succ_of_le (length_follow h)

/-- The text of the bytes, or their first fault. -/
def decode (bs : List UInt8) : Except Fault String :=
  match decode? bs with
  | some s => .ok s
  | none => .error (faultFrom 0 bs)

theorem decode_eq_ok_iff {bs : List UInt8} {s : String} : decode bs = .ok s ↔ bs = encode s := by
  rw [← decode?_eq_some_iff, decode]
  split <;> simp_all

end OpcodeTables.Utf8
