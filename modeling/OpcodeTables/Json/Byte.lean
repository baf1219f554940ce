/-!
# Bytes of a JSON document

The bytes with a meaning in the syntax, and the blanks between tokens.
-/

namespace OpcodeTables.Json

abbrev quoteMark : UInt8 := 0x22
abbrev plus : UInt8 := 0x2B
abbrev comma : UInt8 := 0x2C
abbrev minus : UInt8 := 0x2D
abbrev point : UInt8 := 0x2E
abbrev zero : UInt8 := 0x30
abbrev colon : UInt8 := 0x3A
abbrev openList : UInt8 := 0x5B
abbrev backslash : UInt8 := 0x5C
abbrev closeList : UInt8 := 0x5D
abbrev openMap : UInt8 := 0x7B
abbrev closeMap : UInt8 := 0x7D

/-- Space, tab, line feed and carriage return. -/
def isBlank (b : UInt8) : Bool :=
  b = 0x20 || b = 0x9 || b = 0xA || b = 0xD

def dropBlanks (s : List UInt8) : List UInt8 :=
  s.dropWhile isBlank

theorem length_dropBlanks_le (s : List UInt8) : (dropBlanks s).length ≤ s.length :=
  (List.dropWhile_suffix isBlank).length_le

theorem dropBlanks_cons_of_not {b : UInt8} (h : isBlank b = false) (s : List UInt8) :
    dropBlanks (b :: s) = b :: s := by
  simp [dropBlanks, h]

/-- The value of a hexadecimal digit. -/
def hexDigit? (b : UInt8) : Option Nat :=
  if 0x30 ≤ b ∧ b ≤ 0x39 then some (b.toNat - 0x30)
  else if 0x61 ≤ b ∧ b ≤ 0x66 then some (b.toNat - 0x57)
  else if 0x41 ≤ b ∧ b ≤ 0x46 then some (b.toNat - 0x37)
  else none

def isDigit (b : UInt8) : Bool :=
  0x30 ≤ b && b ≤ 0x39

/-- The values of the decimal digits at the front, and what follows them. -/
def takeDigits (s : List UInt8) : List Nat × List UInt8 :=
  ((s.takeWhile isDigit).map fun b => b.toNat - 0x30, s.dropWhile isDigit)

theorem length_takeDigits_le (s : List UInt8) : (takeDigits s).2.length ≤ s.length :=
  (List.dropWhile_suffix isDigit).length_le

end OpcodeTables.Json
