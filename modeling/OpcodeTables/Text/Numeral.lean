/-!
# Numerals

The decimal and hexadecimal spelling of a number, without leading zeros.
-/

namespace OpcodeTables.Text

/-- `205` for 205. -/
def decimal (n : Nat) : String :=
  String.ofList (Nat.toDigits 10 n)

/-- `cd` for 205. -/
def hexLower (n : Nat) : String :=
  String.ofList (Nat.toDigits 16 n)

/-- `CD` for 205. -/
def hexUpper (n : Nat) : String :=
  String.ofList ((Nat.toDigits 16 n).map Char.toUpper)

theorem ofDigitChars_decimal (n : Nat) : Nat.ofDigitChars 10 (decimal n).toList 0 = n := by
  simp [decimal, Nat.ofDigitChars_toDigits]

theorem decimal_injective {m n : Nat} (h : decimal m = decimal n) : m = n := by
  rw [← ofDigitChars_decimal m, h, ofDigitChars_decimal]

theorem isDigit_of_mem_decimal {n : Nat} {c : Char} (h : c ∈ (decimal n).toList) : c.isDigit := by
  rw [decimal, String.toList_ofList] at h
  exact Nat.isDigit_of_mem_toDigits (by decide) (by decide) h

theorem decimal_ne_nil (n : Nat) : (decimal n).toList ≠ [] := by
  rw [decimal, String.toList_ofList]
  exact Nat.toDigits_ne_nil

/-- Only zero begins with a zero. -/
theorem head?_decimal_ne_zero {n : Nat} (h : 0 < n) : (decimal n).toList.head? ≠ some '0' := by
  rw [decimal, String.toList_ofList]
  induction n using Nat.strongRecOn with
  | ind n ih =>
    by_cases hn : n < 10
    · rw [Nat.toDigits_of_lt_base hn]
      have digit : ∀ n < 10, 0 < n → [n.digitChar].head? ≠ some '0' := by decide
      exact digit n hn h
    · have hh := ih (n / 10) (by omega) (by omega)
      have hne := Nat.toDigits_ne_nil (n := n / 10) (b := 10)
      rw [Nat.toDigits_of_base_le (by decide) (by omega)]
      generalize Nat.toDigits 10 (n / 10) = ds at hh hne
      cases ds with
      | nil => exact absurd rfl hne
      | cons d ds => exact hh

end OpcodeTables.Text
