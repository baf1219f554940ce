import OpcodeTables.Json.Leaf

/-!
# Skipping a value

What follows a value that nobody reads. The lists and maps around the current position are kept on a stack, so that
any depth of nesting is accepted; texts and numbers are scanned and not evaluated.
-/

namespace OpcodeTables.Json

/-- What follows the digits at the front, of which there must be one. -/
def skipDigits (s : List UInt8) : Except Fault (List UInt8) :=
  let t := takeDigits s
  if t.1 = [] then .error .invalidNumber else .ok t.2

/-- The exponent, after its `e`. -/
def skipExponent : List UInt8 → Except Fault (List UInt8)
  | b :: r => if b = plus ∨ b = minus then skipDigits r else skipDigits (b :: r)
  | [] => skipDigits []

def skipAfterFraction : List UInt8 → Except Fault (List UInt8)
  | b :: r => if b = 0x65 ∨ b = 0x45 then skipExponent r else .ok (b :: r)
  | [] => .ok []

def skipAfterInteger : List UInt8 → Except Fault (List UInt8)
  | b :: r =>
    if b = point then
      match skipDigits r with
      | .error e => .error e
      | .ok t => skipAfterFraction t
    else skipAfterFraction (b :: r)
  | [] => .ok []

/-- The digits of a number: a zero stands alone before the point. -/
def skipUnsigned : List UInt8 → Except Fault (List UInt8)
  | b :: r =>
    if b = zero then
      if r.head?.any isDigit then .error .invalidNumber else skipAfterInteger r
    else if isDigit b then skipAfterInteger (takeDigits (b :: r)).2
    else .error .invalidNumber
  | [] => .error .invalidNumber

def skipNumber : List UInt8 → Except Fault (List UInt8)
  | b :: r => if b = minus then skipUnsigned r else skipUnsigned (b :: r)
  | [] => skipUnsigned []

/-- A value without parts. -/
def skipLeaf (s : List UInt8) : Except Fault (List UInt8) :=
  match s with
  | [] => .error .endInValue
  | b :: r =>
    match words.find? (·.1 = b) with
    | some w => word w.2.1 r
    | none =>
      if b = quoteMark then skipText r
      else if b = minus ∨ isDigit b then skipNumber s
      else .error .expectedValue

/-! ### Progress of the leaves -/

theorem length_skipDigits_le {s r : List UInt8} (h : skipDigits s = .ok r) : r.length ≤ s.length := by
  unfold skipDigits at h
  simp only at h
  split at h
  · simp at h
  · simp only [Except.ok.injEq] at h
    exact h ▸ length_takeDigits_le s

theorem length_skipExponent_le {s r : List UInt8} (h : skipExponent s = .ok r) : r.length ≤ s.length := by
  unfold skipExponent at h
  split at h
  · split at h
    · exact Nat.le_succ_of_le (length_skipDigits_le h)
    · exact length_skipDigits_le h
  · exact length_skipDigits_le h

theorem length_skipAfterFraction_le {s r : List UInt8} (h : skipAfterFraction s = .ok r) :
    r.length ≤ s.length := by
  unfold skipAfterFraction at h
  split at h
  · split at h
    · exact Nat.le_succ_of_le (length_skipExponent_le h)
    · simp only [Except.ok.injEq] at h
      simp [← h]
  · simp only [Except.ok.injEq] at h
    simp [← h]

theorem length_skipAfterInteger_le {s r : List UInt8} (h : skipAfterInteger s = .ok r) :
    r.length ≤ s.length := by
  unfold skipAfterInteger at h
  split at h
  · split at h
    · split at h
      · simp at h
      · rename_i ht
        exact Nat.le_succ_of_le (Nat.le_trans (length_skipAfterFraction_le h) (length_skipDigits_le ht))
    · exact length_skipAfterFraction_le h
  · simp only [Except.ok.injEq] at h
    simp [← h]

theorem length_skipUnsigned_lt {s r : List UInt8} (h : skipUnsigned s = .ok r) : r.length < s.length := by
  unfold skipUnsigned at h
  split at h
  · rename_i b t
    split at h
    · split at h
      · simp at h
      · exact Nat.lt_succ_of_le (length_skipAfterInteger_le h)
    · split at h
      · rename_i hd
        have hdrop : (takeDigits (b :: t)).2.length ≤ t.length := by
          simp only [takeDigits, List.dropWhile_cons_of_pos hd]
          exact (List.dropWhile_suffix isDigit).length_le
        exact Nat.lt_succ_of_le (Nat.le_trans (length_skipAfterInteger_le h) hdrop)
      · simp at h
  · simp at h

theorem length_skipNumber_lt {s r : List UInt8} (h : skipNumber s = .ok r) : r.length < s.length := by
  unfold skipNumber at h
  split at h
  · split at h
    · exact Nat.lt_succ_of_lt (length_skipUnsigned_lt h)
    · exact length_skipUnsigned_lt h
  · exact length_skipUnsigned_lt h

theorem length_skipLeaf_lt {s r : List UInt8} (h : skipLeaf s = .ok r) : r.length < s.length := by
  unfold skipLeaf at h
  split at h
  · simp at h
  · split at h
    · exact Nat.lt_succ_of_le (length_word_le h)
    · split at h
      · exact Nat.lt_succ_of_lt (length_skipText_lt h)
      · split at h
        · exact length_skipNumber_lt h
        · simp at h

/-! ### Lists and maps -/

/-- What a value can be part of. -/
inductive Container where
  | list
  | map
deriving DecidableEq

namespace Container

def close : Container → UInt8
  | .list => closeList
  | .map => closeMap

/-- The fault when the document ends between two parts. -/
def cutOff : Container → Fault
  | .list => .endInList
  | .map => .endInObject

/-- The fault when neither a comma nor the end follows a part. -/
def noComma : Container → Fault
  | .list => .expectedListEnd
  | .map => .expectedObjectEnd

end Container

/-- What follows the colon after a key. -/
def takeColon (s : List UInt8) : Except Fault (List UInt8) :=
  match dropBlanks s with
  | [] => .error .endInObject
  | b :: r => if b = colon then .ok r else .error .expectedColon

theorem length_takeColon_lt {s r : List UInt8} (h : takeColon s = .ok r) : r.length < s.length := by
  unfold takeColon at h
  have hs := length_dropBlanks_le s
  split at h
  · simp at h
  · rename_i hd
    split at h
    · simp only [Except.ok.injEq] at h
      subst h
      rw [hd] at hs
      exact hs
    · simp at h

/-- What follows a key that nobody reads, and its colon. -/
def skipKey (s : List UInt8) : Except Fault (List UInt8) :=
  match dropBlanks s with
  | [] => .error .endInObject
  | b :: r =>
    if b = quoteMark then
      match skipText r with
      | .error e => .error e
      | .ok t => takeColon t
    else .error .keyNotText

theorem length_skipKey_lt {s r : List UInt8} (h : skipKey s = .ok r) : r.length < s.length := by
  unfold skipKey at h
  have hs := length_dropBlanks_le s
  split at h
  · simp at h
  · rename_i hd
    rw [hd] at hs
    split at h
    · split at h
      · simp at h
      · rename_i ht
        have h1 := length_skipText_lt ht
        have h2 := length_takeColon_lt h
        simp only [List.length_cons] at hs
        omega
    · simp at h

mutual

/-- What follows the containers on the stack, from a value of the innermost one on. -/
def skipValue (stack : List Container) (s : List UInt8) : Except Fault (List UInt8) :=
  match hs : dropBlanks s with
  | [] => .error .endInValue
  | b :: r =>
    have hle : r.length < s.length := by
      have := length_dropBlanks_le s
      rw [hs] at this
      exact this
    if b = openList then skipFirst .list stack r
    else if b = openMap then skipFirst .map stack r
    else
      match h : skipLeaf (b :: r) with
      | .error e => .error e
      | .ok t =>
        have : t.length < s.length := by
          have := length_skipLeaf_lt h
          simp only [List.length_cons] at this
          omega
        skipRest stack t
termination_by 3 * s.length

/-- From a part of the container `c` on; the key of a map's part comes first. -/
def skipPart (c : Container) (stack : List Container) (s : List UInt8) : Except Fault (List UInt8) :=
  match c with
  | .list => skipValue (c :: stack) s
  | .map =>
    match h : skipKey s with
    | .error e => .error e
    | .ok t =>
      have := length_skipKey_lt h
      skipValue (c :: stack) t
termination_by 3 * s.length + 1

/-- From the opening bracket of the container `c` on. -/
def skipFirst (c : Container) (stack : List Container) (s : List UInt8) : Except Fault (List UInt8) :=
  match hs : dropBlanks s with
  | [] => .error c.cutOff
  | b :: r =>
    have : r.length + 1 ≤ s.length := by
      have := length_dropBlanks_le s
      rw [hs] at this
      exact this
    if b = c.close then skipRest stack r else skipPart c stack (b :: r)
termination_by 3 * s.length + 2

/-- From the end of a value on. -/
def skipRest (stack : List Container) (s : List UInt8) : Except Fault (List UInt8) :=
  match stack with
  | [] => .ok s
  | c :: stack =>
    match hs : dropBlanks s with
    | [] => .error c.cutOff
    | b :: r =>
      have : r.length < s.length := by
        have := length_dropBlanks_le s
        rw [hs] at this
        exact this
      if b = comma then skipPart c stack r
      else if b = c.close then skipRest stack r
      else .error c.noComma
termination_by 3 * s.length

end

/-- What follows a value. -/
def skip (s : List UInt8) : Except Fault (List UInt8) :=
  skipValue [] s

/-! ### Progress -/

theorem length_skipValue_lt {stack : List Container} {s r : List UInt8} (h : skipValue stack s = .ok r) :
    r.length < s.length := by
  refine (skipValue.mutual_induct
    (fun stack s => ∀ r, skipValue stack s = .ok r → r.length < s.length)
    (fun stack s => ∀ r, skipRest stack s = .ok r → r.length ≤ s.length)
    (fun c stack s => ∀ r, skipPart c stack s = .ok r → r.length < s.length)
    (fun c stack s => ∀ r, skipFirst c stack s = .ok r → r.length < s.length)
    ?_ ?_ ?_ ?_ ?_ ?_ ?_ ?_ ?_ ?_ ?_ ?_ ?_ ?_ ?_ ?_).1 stack s r h
  all_goals grind [skipValue, skipRest, skipPart, skipFirst]

theorem length_skip_lt {s r : List UInt8} (h : skip s = .ok r) : r.length < s.length :=
  length_skipValue_lt h

end OpcodeTables.Json
