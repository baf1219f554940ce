import OpcodeTables.Json.Reader

/-!
# Records

A record is a map from the names of its members to their values, in any order; members with other names are skipped. A
list of all the values in the declared order is a record too.
-/

namespace OpcodeTables.Json

/-- The members of a record in the declared order, with a reader for the value of each. -/
inductive Members : List Type → Type 1 where
  | nil : Members []
  | cons {α : Type} {as : List Type} (name : String) (value : Reader α) (rest : Members as) : Members (α :: as)

/-- What has been read of a record so far. -/
def Slots : List Type → Type
  | [] => Unit
  | α :: as => Option α × Slots as

/-- The values of a record. -/
def Values : List Type → Type
  | [] => Unit
  | α :: as => α × Values as

def Slots.empty : (as : List Type) → Slots as
  | [] => ()
  | _ :: as => (none, empty as)

namespace Members

def names {as : List Type} : Members as → List String
  | nil => []
  | cons name _ rest => name :: rest.names

/-- A reader that puts the value of the member `key` into its slot, or none if no member has this name. A slot is
filled once. -/
def slot? {as : List Type} : Members as → (key : String) → Slots as → Except Fault (Option (Reader (Slots as)))
  | nil, _, _ => .ok none
  | cons name value rest, key, (x, xs) =>
    if key = name then
      match x with
      | some _ => .error (.duplicateField name)
      | none => .ok (some (value.map fun a => (some a, xs)))
    else (rest.slot? key xs).map fun r => r.map fun r => r.map fun ys => (x, ys)

/-- The values, when every slot is filled. -/
def values {as : List Type} : Members as → Slots as → Except Fault (Values as)
  | nil, _ => .ok ()
  | cons name _ rest, (x, xs) =>
    match x with
    | none => .error (.missingField name)
    | some a => (rest.values xs).map fun vs => (a, vs)

/-- The values in the declared order, the next one being number `i`. `wanted` describes the whole record. -/
def inOrder {as : List Type} (wanted : String) (room : Nat) :
    Members as → (i : Nat) → List UInt8 → Except Fault (Values as × List UInt8)
  | nil, _, s => .ok ((), s)
  | cons _ value rest, i, s =>
    match Reader.nextElement (i = 0) s with
    | .error e => .error e
    | .ok (.closed _) => .error (.wrongLength i wanted)
    | .ok (.part t) =>
      match value.run room t with
      | .error e => .error e
      | .ok (a, u) => (inOrder wanted room rest (i + 1) u).map fun v => ((a, v.1), v.2)

theorem length_inOrder_le {as : List Type} {wanted : String} {room i : Nat} {ms : Members as} {s : List UInt8}
    {t : Values as × List UInt8} (h : ms.inOrder wanted room i s = .ok t) : t.2.length ≤ s.length := by
  induction ms generalizing i s with
  | nil =>
    simp only [inOrder, Except.ok.injEq] at h
    simp [← h]
  | cons name value rest ih =>
    simp only [inOrder] at h
    split at h
    · simp at h
    · simp at h
    · rename_i hn
      split at h
      · simp at h
      · rename_i ha
        obtain ⟨v, hv, rfl⟩ := map_eq_ok_iff.1 h
        have h1 := Reader.length_nextElement_le hn
        have h2 := value.consumes ha
        have h3 := ih hv
        simp only [Reader.Next.rest] at h1
        simp only at h2
        exact Nat.le_trans h3 (Nat.le_trans (Nat.le_of_lt h2) h1)

end Members

namespace Reader

/-- The end of a list that has all the elements it may have. -/
def closing (s : List UInt8) : Except Fault (List UInt8) :=
  match dropBlanks s with
  | [] => .error .endInList
  | b :: r =>
    if b = closeList then .ok r
    else if b = comma ∧ (dropBlanks r).head? = some closeList then .error .trailingComma
    else .error .trailingCharacters

theorem length_closing_lt {s r : List UInt8} (h : closing s = .ok r) : r.length < s.length := by
  have := length_dropBlanks_le s
  grind [closing]

/-- The next key of a map, without its opening quote; after the first member a comma comes before it. -/
def nextKey (first : Bool) (s : List UInt8) : Except Fault Next :=
  match dropBlanks s with
  | [] => .error .endInObject
  | b :: r =>
    if b = closeMap then .ok (.closed r)
    else if first then
      if b = quoteMark then .ok (.part r) else .error .keyNotText
    else if b = comma then
      match dropBlanks r with
      | [] => .error .endInValue
      | c :: t =>
        if c = closeMap then .error .trailingComma
        else if c = quoteMark then .ok (.part t)
        else .error .keyNotText
    else .error .expectedObjectEnd

theorem length_nextKey_lt {first : Bool} {s : List UInt8} {n : Next} (h : nextKey first s = .ok n) :
    n.rest.length < s.length := by
  have := length_dropBlanks_le s
  have : ∀ t, (dropBlanks t).length ≤ t.length := length_dropBlanks_le
  grind [nextKey, Next.rest]

/-- The slots after a member whose key has been read: its value goes into a slot or is skipped. -/
def member {as : List Type} (ms : Members as) (room : Nat) (key : String) (slots : Slots as) (s : List UInt8) :
    Except Fault (Slots as × List UInt8) :=
  match ms.slot? key slots with
  | .error e => .error e
  | .ok slot =>
    match takeColon s with
    | .error e => .error e
    | .ok t =>
      match slot with
      | some value => value.run room t
      | none => (skip t).map (slots, ·)

theorem length_member_lt {as : List Type} {ms : Members as} {room : Nat} {key : String} {slots : Slots as}
    {s : List UInt8} {t : Slots as × List UInt8} (h : member ms room key slots s = .ok t) :
    t.2.length < s.length := by
  unfold member at h
  split at h
  · simp at h
  · split at h
    · simp at h
    · rename_i hc
      have h1 := length_takeColon_lt hc
      split at h
      · rename_i value _
        exact Nat.lt_trans (value.consumes h) h1
      · obtain ⟨u, hu, rfl⟩ := map_eq_ok_iff.1 h
        exact Nat.lt_trans (length_skip_lt hu) h1

/-- The slots at the end of a map, from one of its members, or from its end, on. -/
def members {as : List Type} (ms : Members as) (room : Nat) (first : Bool) (slots : Slots as) (s : List UInt8) :
    Except Fault (Slots as × List UInt8) :=
  match hn : nextKey first s with
  | .error e => .error e
  | .ok (.closed rest) => .ok (slots, rest)
  | .ok (.part t) =>
    match hk : readText t with
    | .error e => .error e
    | .ok (key, u) =>
      match hm : member ms room key slots u with
      | .error e => .error e
      | .ok (slots, v) =>
        have : v.length < s.length := by
          have h1 := length_nextKey_lt hn
          have h2 := length_readText_lt hk
          have h3 := length_member_lt hm
          exact Nat.lt_trans h3 (Nat.lt_trans h2 h1)
        members ms room false slots v
termination_by s.length

theorem length_members_lt {as : List Type} {ms : Members as} {room : Nat} {first : Bool} {slots : Slots as}
    {s : List UInt8} {t : Slots as × List UInt8} (h : members ms room first slots s = .ok t) :
    t.2.length < s.length := by
  fun_induction members ms room first slots s with
  | case1 | case3 | case4 => simp at h
  | case2 first slots s rest hn =>
    simp only [Except.ok.injEq] at h
    subst h
    exact length_nextKey_lt hn
  | case5 first slots s t' hn key u hk slots' v hm hv ih => exact Nat.lt_trans (ih h) hv

/-- A record with the given members; `title` names it in faults. -/
def record {as : List Type} (title : String) (ms : Members as) : Reader (Values as) where
  run room s :=
    match dropBlanks s with
    | [] => .error .endInValue
    | b :: rest =>
      if b = openMap then
        match room with
        | 0 => .error .tooDeep
        | room + 1 =>
          match members ms room true (Slots.empty as) rest with
          | .error e => .error e
          | .ok (slots, t) => (ms.values slots).map (·, t)
      else if b = openList then
        match room with
        | 0 => .error .tooDeep
        | room + 1 =>
          let wanted := title ++ " with " ++ Text.decimal as.length ++ " elements"
          match ms.inOrder wanted room 0 rest with
          | .error e => .error e
          | .ok (values, t) => (closing t).map (values, ·)
      else .error (mismatch title (b :: rest))
  consumes {room s t} h := by
    have hs := length_dropBlanks_le s
    split at h
    · simp at h
    · rename_i hd
      rw [hd] at hs
      split at h
      · split at h
        · simp at h
        · split at h
          · simp at h
          · rename_i hm
            obtain ⟨v, -, rfl⟩ := map_eq_ok_iff.1 h
            exact Nat.lt_trans (length_members_lt hm) hs
      · split at h
        · split at h
          · simp at h
          · simp only at h
            split at h
            · simp at h
            · rename_i hi
              obtain ⟨v, hv, rfl⟩ := map_eq_ok_iff.1 h
              have h1 := Members.length_inOrder_le hi
              have h2 := length_closing_lt hv
              exact Nat.lt_trans (Nat.lt_of_lt_of_le h2 h1) hs
        · simp at h

end Reader

end OpcodeTables.Json
