import OpcodeTables.Json.Byte
import OpcodeTables.Json.Fault
import OpcodeTables.Power

/-!
# JSON numbers

Reading a number from its minus sign or first digit on. The digits are gathered into a significand of 64 bits; digits
that no longer fit are dropped, which in the integer part leaves a power of ten behind.
-/

namespace OpcodeTables.Json

/-- A significand extended by digits as long as it fits in 64 bits, and the number of digits taken. -/
def gather (significand : Nat) : List Nat → Nat × Nat
  | [] => (significand, 0)
  | d :: ds =>
    let next := significand * 10 + d
    if next < 2 ^ 64 then
      let g := gather next ds
      (g.1, g.2 + 1)
    else (significand, 0)

/-- The number `significand * 10 ^ power`. -/
def realNumber (isNegative : Bool) (significand : Nat) (power : Int) : Except Fault Number :=
  match Magnitude.ofDecimal significand power with
  | some x => .ok (.real isNegative x)
  | none => .error .numberOutOfRange

/-- The exponent, after its `e`: a sign or none, and digits. An exponent beyond 31 bits leaves nothing but zero or a
fault. -/
def exponent (isNegative : Bool) (significand : Nat) (power : Int) (s : List UInt8) :
    Except Fault (Number × List UInt8) :=
  let (down, s) : Bool × List UInt8 :=
    match s with
    | b :: r => if b = minus then (true, r) else if b = plus then (false, r) else (false, s)
    | [] => (false, s)
  match s with
  | [] => .error .endInValue
  | b :: _ =>
    if isDigit b then
      let t := takeDigits s
      let n : Nat := t.1.foldl (fun n d => n * 10 + d) 0
      let number :=
        if n < 2 ^ 31 then realNumber isNegative significand (if down then power - (n : Int) else power + (n : Int))
        else if significand ≠ 0 ∧ ¬down then .error .numberOutOfRange
        else .ok (.real isNegative .zero)
      number.map (·, t.2)
    else .error .invalidNumber

/-- The rest of a number after its integer part and fraction. -/
def afterFraction (isNegative : Bool) (significand : Nat) (power : Int) (s : List UInt8) :
    Except Fault (Number × List UInt8) :=
  match s with
  | b :: r =>
    if b = 0x65 ∨ b = 0x45 then exponent isNegative significand power r
    else (realNumber isNegative significand power).map (·, s)
  | [] => (realNumber isNegative significand power).map (·, s)

/-- The fraction, after its point. -/
def fraction (isNegative : Bool) (significand : Nat) (power : Int) (s : List UInt8) :
    Except Fault (Number × List UInt8) :=
  let t := takeDigits s
  if t.1 = [] then .error (if t.2 = [] then .endInValue else .invalidNumber)
  else
    let g := gather significand t.1
    afterFraction isNegative g.1 (power - g.2) t.2

/-- An integer without fraction and exponent. A zero with a minus sign, and what a signed word cannot hold, is no
integer. -/
def integer (isNegative : Bool) (n : Nat) : Except Fault Number :=
  if ¬isNegative then .ok (.natural n)
  else if n = 0 ∨ 2 ^ 63 < n then realNumber true n 0
  else .ok (.negative n)

/-- What follows the integer part, of which `dropped` digits were not gathered. -/
def afterInteger (isNegative : Bool) (significand dropped : Nat) (s : List UInt8) :
    Except Fault (Number × List UInt8) :=
  let whole := if dropped = 0 then integer isNegative significand else realNumber isNegative significand dropped
  match s with
  | b :: r =>
    if b = point then fraction isNegative significand dropped r
    else if b = 0x65 ∨ b = 0x45 then exponent isNegative significand dropped r
    else whole.map (·, s)
  | [] => whole.map (·, s)

/-- The digits of a number: a zero stands alone before the point. -/
def unsigned (isNegative : Bool) (s : List UInt8) : Except Fault (Number × List UInt8) :=
  match s with
  | [] => .error .endInValue
  | b :: r =>
    if b = zero then
      if r.head?.any isDigit then .error .invalidNumber else afterInteger isNegative 0 0 r
    else if isDigit b then
      let t := takeDigits s
      let g := gather 0 t.1
      afterInteger isNegative g.1 (t.1.length - g.2) t.2
    else .error .invalidNumber

def readNumber (s : List UInt8) : Except Fault (Number × List UInt8) :=
  match s with
  | b :: r => if b = minus then unsigned true r else unsigned false s
  | [] => unsigned false s

/-! ### Progress -/

private theorem mapPair_eq {x : Except Fault Number} {s r : List UInt8} {n : Number}
    (h : x.map (·, s) = .ok (n, r)) : r = s := by
  cases x with
  | error e => simp [Except.map] at h
  | ok m =>
    simp only [Except.map, Except.ok.injEq, Prod.mk.injEq] at h
    exact h.2.symm

theorem length_exponent_le {i : Bool} {m : Nat} {p : Int} {s r : List UInt8} {n : Number}
    (h : exponent i m p s = .ok (n, r)) : r.length ≤ s.length := by
  have digits : ∀ t : List UInt8, t.length ≤ s.length → (takeDigits t).2.length ≤ s.length :=
    fun t ht => Nat.le_trans (length_takeDigits_le t) ht
  unfold exponent at h
  split at h
  rename_i down t ht
  have hle : t.length ≤ s.length := by
    revert ht
    split
    · rename_i b u
      split
      · rintro ⟨⟩; simp
      · split
        · rintro ⟨⟩; simp
        · rintro ⟨⟩; simp
    · rintro ⟨⟩; simp
  split at h
  · simp at h
  · split at h
    · rw [mapPair_eq h]
      exact digits _ hle
    · simp at h

theorem length_afterFraction_le {i : Bool} {m : Nat} {p : Int} {s r : List UInt8} {n : Number}
    (h : afterFraction i m p s = .ok (n, r)) : r.length ≤ s.length := by
  unfold afterFraction at h
  split at h
  · split at h
    · exact Nat.le_succ_of_le (length_exponent_le h)
    · simp [mapPair_eq h]
  · simp [mapPair_eq h]

theorem length_fraction_le {i : Bool} {m : Nat} {p : Int} {s r : List UInt8} {n : Number}
    (h : fraction i m p s = .ok (n, r)) : r.length ≤ s.length := by
  unfold fraction at h
  simp only at h
  split at h
  · simp at h
  · exact Nat.le_trans (length_afterFraction_le h) (length_takeDigits_le s)

theorem length_afterInteger_le {i : Bool} {m d : Nat} {s r : List UInt8} {n : Number}
    (h : afterInteger i m d s = .ok (n, r)) : r.length ≤ s.length := by
  unfold afterInteger at h
  simp only at h
  split at h
  · split at h
    · exact Nat.le_succ_of_le (length_fraction_le h)
    · split at h
      · exact Nat.le_succ_of_le (length_exponent_le h)
      · simp [mapPair_eq h]
  · simp [mapPair_eq h]

theorem length_unsigned_lt {i : Bool} {s r : List UInt8} {n : Number} (h : unsigned i s = .ok (n, r)) :
    r.length < s.length := by
  unfold unsigned at h
  split at h
  · simp at h
  · rename_i b t
    split at h
    · split at h
      · simp at h
      · exact Nat.lt_succ_of_le (length_afterInteger_le h)
    · split at h
      · rename_i hd
        have hdrop : (takeDigits (b :: t)).2.length ≤ t.length := by
          simp only [takeDigits, List.dropWhile_cons_of_pos hd]
          exact (List.dropWhile_suffix isDigit).length_le
        exact Nat.lt_succ_of_le (Nat.le_trans (length_afterInteger_le h) hdrop)
      · simp at h

theorem length_readNumber_lt {s r : List UInt8} {n : Number} (h : readNumber s = .ok (n, r)) :
    r.length < s.length := by
  unfold readNumber at h
  split at h
  · split at h
    · exact Nat.lt_succ_of_lt (length_unsigned_lt h)
    · exact length_unsigned_lt h
  · exact length_unsigned_lt h

end OpcodeTables.Json
