import OpcodeTables.Json.Numeral
import OpcodeTables.Json.Quoted

/-!
# Values without parts

Reading a word, a number or a text from its first byte on.
-/

namespace OpcodeTables.Json

inductive Leaf where
  | null
  | boolean (b : Bool)
  | number (n : Number)
  | text (s : String)
deriving DecidableEq

def Leaf.found : Leaf → Found
  | .null => .null
  | .boolean b => .boolean b
  | .number n => .number n
  | .text s => .text s

/-- What follows the given bytes. -/
def word : List UInt8 → List UInt8 → Except Fault (List UInt8)
  | [], s => .ok s
  | _ :: _, [] => .error .endInValue
  | w :: ws, b :: s => if b = w then word ws s else .error .expectedWord

/-- `null`, `true` and `false` by their first byte, with the bytes after it. -/
def words : List (UInt8 × List UInt8 × Leaf) :=
  [(0x6E, [0x75, 0x6C, 0x6C], .null), (0x74, [0x72, 0x75, 0x65], .boolean true),
   (0x66, [0x61, 0x6C, 0x73, 0x65], .boolean false)]

def readLeaf (s : List UInt8) : Except Fault (Leaf × List UInt8) :=
  match s with
  | [] => .error .endInValue
  | b :: r =>
    match words.find? (·.1 = b) with
    | some w => (word w.2.1 r).map fun t => (w.2.2, t)
    | none =>
      if b = quoteMark then (readText r).map fun t => (.text t.1, t.2)
      else if b = minus ∨ isDigit b then (readNumber s).map fun t => (.number t.1, t.2)
      else .error .expectedValue

theorem length_word_le {w s r : List UInt8} (h : word w s = .ok r) : r.length ≤ s.length := by
  fun_induction word w s with
  | case1 s => simp_all
  | case2 => simp at h
  | case3 _ _ s ih => exact Nat.le_succ_of_le (ih h)
  | case4 => simp at h

theorem length_readLeaf_lt {s : List UInt8} {t : Leaf × List UInt8} (h : readLeaf s = .ok t) :
    t.2.length < s.length := by
  unfold readLeaf at h
  split at h
  · simp at h
  · split at h
    · obtain ⟨u, hu, rfl⟩ := map_eq_ok_iff.1 h
      exact Nat.lt_succ_of_le (length_word_le hu)
    · split at h
      · obtain ⟨u, hu, rfl⟩ := map_eq_ok_iff.1 h
        exact Nat.lt_succ_of_lt (length_readText_lt hu)
      · split at h
        · obtain ⟨u, hu, rfl⟩ := map_eq_ok_iff.1 h
          exact length_readNumber_lt hu
        · simp at h

end OpcodeTables.Json
