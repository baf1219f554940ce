import OpcodeTables.Binary64
import OpcodeTables.Text.Numeral

/-!
# Shortest decimals

The fewest decimal digits that read back as a given magnitude, nearest to it among those, and their layout:
positional from `10 ^ -5` below `10 ^ 16`, with a fraction even when it is zero, and with a signed exponent otherwise.
-/

namespace OpcodeTables.Magnitude

/-- The decimals `d * 10 ^ p` near a magnitude `v` that is not zero, in quarters of its last place: `v` is `4 *
mantissa` quarters, and the reals that round to it lie between `low` and `high`. -/
structure Interval where
  low : Nat
  value : Nat
  high : Nat
  closed : Bool

def interval (v : Magnitude) : Interval where
  low := 4 * v.mantissa - (if v.mantissa = 2 ^ 52 ∧ -1074 < v.exponent then 1 else 2)
  value := 4 * v.mantissa
  high := 4 * v.mantissa + 2
  closed := v.mantissa % 2 = 0

/-- The value of `n` quarters of a last place as a ratio. -/
def quarters (v : Magnitude) (n : Nat) : Nat × Nat :=
  scale n 1 (-(v.exponent - 2))

/-- The least `k` with `v < 10 ^ k`. -/
def decimalExponent (v : Magnitude) : Int :=
  let r := v.quarters (4 * v.mantissa)
  if r.2 ≤ r.1 then (Nat.toDigits 10 (r.1 / r.2)).length
  else
    match (List.range 400).find? fun j => r.2 ≤ r.1 * 10 ^ (j + 1) with
    | some j => -j
    | none => -400

/-- The decimal with power `p` nearest to `v` among its two neighbours on that grid that read back as `v`. -/
def onGrid? (v : Magnitude) (p : Int) : Option Nat :=
  let i := v.interval
  -- `d * 10 ^ p` and `n` quarters, over a common denominator
  let unit := if 0 ≤ p then 10 ^ p.toNat else 1
  let den := if 0 ≤ p then 1 else 10 ^ (-p).toNat
  let one := v.quarters 1
  let quarter := one.1 * den
  let grid := unit * one.2
  let d := i.value * quarter / grid
  let reads (d : Nat) : Bool :=
    if i.closed then i.low * quarter ≤ d * grid && d * grid ≤ i.high * quarter
    else i.low * quarter < d * grid && d * grid < i.high * quarter
  let below := i.value * quarter - d * grid
  let above := (d + 1) * grid - i.value * quarter
  match reads d, reads (d + 1) with
  | true, true => some (if below < above ∨ (below = above ∧ d % 2 = 0) then d else d + 1)
  | true, false => some d
  | false, true => some (d + 1)
  | false, false => none

/-- The digits without trailing zeros, and the power of ten of the last digit. -/
def trimZeros (digits : List Char) (p : Int) : List Char × Int :=
  let kept := (digits.reverse.dropWhile (· = '0')).reverse
  (kept, p + (digits.length - kept.length : Nat))

/-- The fewest digits, and the power of ten of the last one. -/
def shortest (v : Magnitude) : List Char × Int :=
  let k := v.decimalExponent
  let powers := (List.range 17).map fun n : Nat => k - (n + 1 : Nat)
  match powers.findSome? fun p => (v.onGrid? p).map (·, p) with
  | some (d, p) => trimZeros (Nat.toDigits 10 d) p
  | none => ([], 0)

/-- The layout of digits whose last one counts `10 ^ p`. -/
def layout (digits : List Char) (p : Int) : List Char :=
  let point := digits.length + p
  if 0 ≤ p ∧ point ≤ 16 then digits ++ List.replicate p.toNat '0' ++ ['.', '0']
  else if 0 < point ∧ point ≤ 16 then digits.take point.toNat ++ '.' :: digits.drop point.toNat
  else if -5 < point ∧ point ≤ 0 then ['0', '.'] ++ List.replicate (-point).toNat '0' ++ digits
  else
    let exponent := (if point ≤ 0 then '-' else '+') :: Nat.toDigits 10 (point - 1).natAbs
    digits.take 1 ++ (if digits.length = 1 then [] else '.' :: digits.drop 1) ++ 'e' :: exponent

/-- The decimal text of a magnitude. -/
def text (v : Magnitude) : String :=
  if v.mantissa = 0 then "0.0"
  else
    let d := v.shortest
    String.ofList (layout d.1 d.2)

end OpcodeTables.Magnitude
