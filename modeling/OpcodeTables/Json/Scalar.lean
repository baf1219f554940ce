import OpcodeTables.Json.Record

/-!
# Scalars

A value that may be a number or a text, told apart only after it has been read: a value of any other kind is read to
its end, with all its parts, before it is refused.
-/

namespace OpcodeTables.Json

/-- A natural number or a text. -/
inductive Scalar where
  | natural (n : Nat)
  | text (s : String)
deriving DecidableEq

def Scalar.ofLeaf? : Leaf → Option Scalar
  | .number (.natural n) => some (.natural n)
  | .text s => some (.text s)
  | _ => none

namespace Reader

/-- The members of a map from one of them, or from its end, on, when nobody needs their values. -/
def anyMembers {α : Type} (r : Reader α) (first : Bool) (s : List UInt8) : Except Fault (List UInt8) :=
  match hn : nextKey first s with
  | .error e => .error e
  | .ok (.closed rest) => .ok rest
  | .ok (.part t) =>
    match hk : readText t with
    | .error e => .error e
    | .ok (_, u) =>
      match hc : takeColon u with
      | .error e => .error e
      | .ok v =>
        match hv : r.run 0 v with
        | .error e => .error e
        | .ok (_, w) =>
          have : w.length < s.length := by
            have h1 := length_nextKey_lt hn
            have h2 := length_readText_lt hk
            have h3 := length_takeColon_lt hc
            have h4 := r.consumes hv
            exact Nat.lt_trans h4 (Nat.lt_trans h3 (Nat.lt_trans h2 h1))
          anyMembers r false w
termination_by s.length

theorem length_anyMembers_lt {α : Type} {r : Reader α} {first : Bool} {s t : List UInt8}
    (h : anyMembers r first s = .ok t) : t.length < s.length := by
  fun_induction anyMembers r first s with
  | case1 | case3 | case4 | case5 => simp at h
  | case2 first s rest hn =>
    simp only [Except.ok.injEq] at h
    subst h
    exact length_nextKey_lt hn
  | case6 first s t' hn key u hk v hc a w hv hw ih => exact Nat.lt_trans (ih h) hw

/-- A value without parts, or a list or map whose parts `inner` reads, if one may still be opened. -/
def anyWith (inner : Option (Reader (Option Scalar))) : Reader (Option Scalar) where
  run _ s :=
    match dropBlanks s with
    | [] => .error .endInValue
    | b :: rest =>
      if b = openList then
        match inner with
        | none => .error .tooDeep
        | some r => (elements r 0 true rest).map fun t => (none, t.2)
      else if b = openMap then
        match inner with
        | none => .error .tooDeep
        | some r => (anyMembers r true rest).map (none, ·)
      else (readLeaf (b :: rest)).map fun t => (Scalar.ofLeaf? t.1, t.2)
  consumes {_ s t} h := by
    have hs := length_dropBlanks_le s
    split at h
    · simp at h
    · rename_i hd
      rw [hd] at hs
      split at h
      · split at h
        · simp at h
        · obtain ⟨v, hv, rfl⟩ := map_eq_ok_iff.1 h
          exact Nat.lt_trans (length_elements_lt hv) hs
      · split at h
        · split at h
          · simp at h
          · obtain ⟨v, hv, rfl⟩ := map_eq_ok_iff.1 h
            exact Nat.lt_trans (length_anyMembers_lt hv) hs
        · obtain ⟨v, hv, rfl⟩ := map_eq_ok_iff.1 h
          exact Nat.lt_of_lt_of_le (length_readLeaf_lt hv) hs

/-- A value of any kind with at most `room` lists and maps open at once; the scalar, if it is one. -/
def any : (room : Nat) → Reader (Option Scalar)
  | 0 => anyWith none
  | room + 1 => anyWith (some (any room))

/-- A natural number or a text. -/
def scalar : Reader Scalar where
  run room s :=
    match (any room).run 0 s with
    | .error e => .error e
    | .ok (some a, rest) => .ok (a, rest)
    | .ok (none, _) => .error .notAScalar
  consumes {room s t} h := by
    split at h
    · simp at h
    · rename_i hr
      simp only [Except.ok.injEq] at h
      subst h
      exact (any room).consumes hr
    · simp at h

end Reader

end OpcodeTables.Json
