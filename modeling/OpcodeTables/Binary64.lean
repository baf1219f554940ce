import OpcodeTables.Power

/-!
# Double-precision magnitudes

The finite non-negative values `mantissa * 2 ^ exponent` of the binary64 format, in exact integer arithmetic. Every
operation rounds its exact result to the nearest value, a tie to the even mantissa, and has no result beyond the
largest value.
-/

namespace OpcodeTables

/-- A magnitude: the mantissa has at most 53 bits, and the exponent lies between -1074 and 971. -/
structure Magnitude where
  mantissa : Nat
  exponent : Int
deriving DecidableEq

namespace Magnitude

def zero : Magnitude := ⟨0, -1074⟩

/-- The quotient rounded to the nearest integer, a tie to the even one. -/
def roundDiv (num den : Nat) : Nat :=
  let q := num / den
  let r := num % den
  if 2 * r < den ∨ (2 * r = den ∧ q % 2 = 0) then q else q + 1

/-- The ratio `num / den` divided by `2 ^ e`. -/
def scale (num den : Nat) (e : Int) : Nat × Nat :=
  if 0 ≤ e then (num, den * 2 ^ e.toNat) else (num * 2 ^ (-e).toNat, den)

/-- The magnitude nearest to `num / den`. -/
def ofRatio (num den : Nat) : Option Magnitude :=
  if num = 0 then some zero
  else
    let e := (num.log2 : Int) - den.log2 - 53
    let r := scale num den e
    let e := max (if r.1 / r.2 < 2 ^ 53 then e else e + 1) (-1074)
    let r := scale num den e
    let m := roundDiv r.1 r.2
    let v : Magnitude := if m = 2 ^ 53 then ⟨2 ^ 52, e + 1⟩ else ⟨m, e⟩
    if 971 < v.exponent then none else some v

def ofNat (n : Nat) : Option Magnitude :=
  ofRatio n 1

def mul (x y : Magnitude) : Option Magnitude :=
  let r := scale (x.mantissa * y.mantissa) 1 (-(x.exponent + y.exponent))
  ofRatio r.1 r.2

def div (x y : Magnitude) : Option Magnitude :=
  let r := scale x.mantissa y.mantissa (y.exponent - x.exponent)
  ofRatio r.1 r.2

def powerOfTen (n : Nat) : Option Magnitude :=
  ofNat (10 ^ n)

/-- The largest power of ten that is a magnitude has this exponent. -/
def maxPower : Nat := 308

/-- The magnitude divided `n` times by the largest power of ten; a zero stays as it is. -/
def shrink : Nat → Magnitude → Option Magnitude
  | 0, x => some x
  | n + 1, x =>
    if x.mantissa = 0 then some zero
    else do
      let ten ← powerOfTen maxPower
      shrink n (← x.div ten)

/-- The magnitude of `digits * 10 ^ power`: the digits are rounded first, and each power of ten that scales them is a
rounded magnitude too. -/
def ofDecimal (digits : Nat) (power : Int) : Option Magnitude := do
  let x ← ofNat digits
  let n := power.natAbs
  if x.mantissa = 0 then return zero
  else if 0 ≤ power then
    if n ≤ maxPower then x.mul (← powerOfTen n) else none
  else
    let steps := (n - 1) / maxPower
    let x ← shrink steps x
    x.div (← powerOfTen (n - steps * maxPower))

end Magnitude

end OpcodeTables
