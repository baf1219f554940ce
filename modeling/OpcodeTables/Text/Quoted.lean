import OpcodeTables.Text.Numeral
import OpcodeTables.Text.Unprintable

/-!
# Quoted text

A text or a character between quotes, as messages and generated sources show it: the quote in use and the backslash
are escaped, a few controls have names, and any other unprintable character is written by its code point. A text of
plain ASCII characters is quoted as it is (`quoted_eq`).
-/

namespace OpcodeTables.Text

/-- One character between quotes `q`. -/
def escaped (q c : Char) : List Char :=
  if c = '\x00' then ['\\', '0']
  else if c = '\t' then ['\\', 't']
  else if c = '\r' then ['\\', 'r']
  else if c = '\n' then ['\\', 'n']
  else if c = q ∨ c = '\\' then ['\\', c]
  else if isUnprintable c then ['\\', 'u', '{'] ++ (hexLower c.toNat).toList ++ ['}']
  else [c]

/-- A text between double quotes. -/
def quoted (s : String) : String :=
  String.ofList ('"' :: s.toList.flatMap (escaped '"') ++ ['"'])

/-- A character between single quotes. -/
def quotedChar (c : Char) : String :=
  String.ofList ('\'' :: escaped '\'' c ++ ['\''])

theorem escaped_of_plain {c : Char} (hl : 0x20 ≤ c.toNat) (hu : c.toNat < 0x7F) (hq : c ≠ '"') (hb : c ≠ '\\') :
    escaped '"' c = [c] := by
  have hne : ∀ d : Char, d.toNat < 0x20 → c ≠ d := fun d hd h => by subst h; omega
  have hp : isUnprintable c = false := by simp [isUnprintable, hu]; omega
  simp [escaped, hne '\x00' (by decide), hne '\t' (by decide), hne '\r' (by decide), hne '\n' (by decide), hq, hb, hp]

/-- Printable ASCII without quotes and backslashes is quoted as it is. -/
theorem quoted_eq {s : String} (h : ∀ c ∈ s.toList, 0x20 ≤ c.toNat ∧ c.toNat < 0x7F ∧ c ≠ '"' ∧ c ≠ '\\') :
    (quoted s).toList = '"' :: s.toList ++ ['"'] := by
  have hs : s.toList.flatMap (escaped '"') = s.toList := by
    generalize s.toList = l at h
    induction l with
    | nil => rfl
    | cons c l ih =>
      have ⟨hl, hu, hq, hb⟩ := h c (by simp)
      rw [List.flatMap_cons, escaped_of_plain hl hu hq hb, ih (fun d hd => h d (by simp [hd]))]
      rfl
  simp [quoted, hs]

end OpcodeTables.Text
