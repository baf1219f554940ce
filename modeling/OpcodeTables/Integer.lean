import OpcodeTables.Power

/-!
# Integer literals

Unsigned 64-bit numbers in hexadecimal (`0x`), binary (`0b`) or decimal digits, with underscores between digits.
-/

namespace OpcodeTables.Integer

/-- The radix that a prefix announces, and the characters after the prefix. -/
def radixAndDigits : List Char → Nat × List Char
  | '0' :: 'x' :: ds => (16, ds)
  | '0' :: 'X' :: ds => (16, ds)
  | '0' :: 'b' :: ds => (2, ds)
  | '0' :: 'B' :: ds => (2, ds)
  | ds => (10, ds)

/-- The value of an ASCII digit, letters of either case counting from ten. -/
def digit? (radix : Nat) (c : Char) : Option Nat :=
  let v :=
    if '0' ≤ c ∧ c ≤ '9' then c.toNat - 48
    else if 'a' ≤ c ∧ c ≤ 'z' then c.toNat - 87
    else if 'A' ≤ c ∧ c ≤ 'Z' then c.toNat - 55
    else radix
  if v < radix then some v else none

/-- The value of digits, the first one counting most. -/
def value? (radix : Nat) (ds : List Char) : Option Nat :=
  ds.foldlM (fun v c => (digit? radix c).map (v * radix + ·)) 0

/-- The number that a literal denotes. -/
def read? (s : List Char) : Option Nat :=
  let (radix, ds) := radixAndDigits s
  if ds.head? = some '_' ∨ ds.getLast? = some '_' then none
  else
    let ds := ds.filter (· ≠ '_')
    if ds = [] then none else (value? radix ds).filter (· < 2 ^ 64)

end OpcodeTables.Integer
