import OpcodeTables.Json.Reader

/-!
# Variants

A value that is one of several named cases: the name as a text where the case has no content, or a map with the name as
its only key and the content as its value.
-/

namespace OpcodeTables.Json

/-- What comes with the name of a case: nothing, one value, or the members of a record. -/
inductive Payload (α : Type) where
  | bare (a : α)
  | content (r : Reader α)
  | fields (r : Reader α)

structure Case (α : Type) where
  name : String
  payload : Payload α

namespace Reader

/-- The payload of the case with the given name. -/
def payloadOf {α : Type} (cases : List (Case α)) (name : String) : Except Fault (Payload α) :=
  match cases.find? (·.name = name) with
  | some c => .ok c.payload
  | none => .error (.unknownVariant name (cases.map (·.name)))

/-- The value of a case that is written as its name alone. -/
def bareCase {α : Type} (cases : List (Case α)) (name : String) : Except Fault α :=
  match payloadOf cases name with
  | .error e => .error e
  | .ok (.bare a) => .ok a
  | .ok (.content _) => .error (.wrongType .bareVariant "newtype variant")
  | .ok (.fields _) => .error (.wrongType .bareVariant "struct variant")

/-- The reader for what follows the name and the colon of a case. -/
def payloadReader {α : Type} : Payload α → Reader α
  | .bare a => unit.map fun _ => a
  | .content r => r
  | .fields r => r

/-- The end of a map that has all the members it may have. -/
def closingMap (s : List UInt8) : Except Fault (List UInt8) :=
  match dropBlanks s with
  | [] => .error .endInObject
  | b :: r => if b = closeMap then .ok r else .error .expectedValue

theorem length_closingMap_lt {s r : List UInt8} (h : closingMap s = .ok r) : r.length < s.length := by
  have := length_dropBlanks_le s
  grind [closingMap]

/-- The key of the only member of a map. -/
def onlyKey (s : List UInt8) : Except Fault (String × List UInt8) :=
  match dropBlanks s with
  | [] => .error .endInObject
  | b :: r =>
    if b = quoteMark then readText r else .error (if b = closeMap then .expectedValue else .keyNotText)

theorem length_onlyKey_lt {s : List UInt8} {t : String × List UInt8} (h : onlyKey s = .ok t) :
    t.2.length < s.length := by
  have hs := length_dropBlanks_le s
  unfold onlyKey at h
  split at h
  · simp at h
  · rename_i hd
    rw [hd] at hs
    split at h
    · exact Nat.lt_trans (length_readText_lt h) hs
    · simp at h

/-- The only member of a map, and the end of the map. -/
def onlyMember {α : Type} (cases : List (Case α)) (room : Nat) (s : List UInt8) : Except Fault (α × List UInt8) := do
  let (name, s) ← onlyKey s
  let payload ← payloadOf cases name
  let s ← takeColon s
  let (a, s) ← (payloadReader payload).run room s
  let s ← closingMap s
  return (a, s)

theorem length_onlyMember_lt {α : Type} {cases : List (Case α)} {room : Nat} {s : List UInt8} {t : α × List UInt8}
    (h : onlyMember cases room s = .ok t) : t.2.length < s.length := by
  unfold onlyMember at h
  simp only [bind, Except.bind, pure, Except.pure] at h
  split at h
  · simp at h
  · rename_i hn
    have h1 := length_onlyKey_lt hn
    split at h
    · simp at h
    · split at h
      · simp at h
      · rename_i hc
        have h2 := length_takeColon_lt hc
        split at h
        · simp at h
        · rename_i hp
          have h3 := (payloadReader _).consumes hp
          split at h
          · simp at h
          · rename_i he
            have h4 := length_closingMap_lt he
            simp only [Except.ok.injEq] at h
            subst h
            exact Nat.lt_trans h4 (Nat.lt_trans h3 (Nat.lt_trans h2 h1))

/-- One of the given cases. -/
def variant {α : Type} (cases : List (Case α)) : Reader α where
  run room s :=
    match dropBlanks s with
    | [] => .error .endInValue
    | b :: rest =>
      if b = openMap then
        match room with
        | 0 => .error .tooDeep
        | room + 1 => onlyMember cases room rest
      else if b = quoteMark then
        match readText rest with
        | .error e => .error e
        | .ok (name, t) => (bareCase cases name).map (·, t)
      else .error .expectedValue
  consumes {room s t} h := by
    have hs := length_dropBlanks_le s
    split at h
    · simp at h
    · rename_i hd
      rw [hd] at hs
      split at h
      · split at h
        · simp at h
        · exact Nat.lt_trans (length_onlyMember_lt h) hs
      · split at h
        · split at h
          · simp at h
          · rename_i hr
            obtain ⟨v, -, rfl⟩ := map_eq_ok_iff.1 h
            exact Nat.lt_trans (length_readText_lt hr) hs
        · simp at h

end Reader

end OpcodeTables.Json
