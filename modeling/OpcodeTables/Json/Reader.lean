import OpcodeTables.Json.Skip

/-!
# Readers

A reader takes one value from the front of a document and leaves the rest. It always takes something (`consumes`), which
bounds the loops over the elements of a list. `room` counts the lists and maps that may still be opened.
-/

namespace OpcodeTables.Json

structure Reader (α : Type) where
  run : (room : Nat) → List UInt8 → Except Fault (α × List UInt8)
  consumes : ∀ {room s t}, run room s = .ok t → t.2.length < s.length

/-- The lists and maps of a document that may be open at once. -/
def maxRoom : Nat := 127

/-- What stands at the front of a document without leading blanks. -/
def found (s : List UInt8) : Except Fault Found :=
  match s with
  | [] => .error .endInValue
  | b :: _ =>
    if b = openList then .ok .sequence
    else if b = openMap then .ok .map
    else (readLeaf s).map fun t => t.1.found

/-- The fault when something else than `wanted` stands at the front. -/
def mismatch (wanted : String) (s : List UInt8) : Fault :=
  match found s with
  | .ok f => .wrongType f wanted
  | .error e => e

namespace Reader

/-- The value of a whole document, blanks around it aside. -/
def readAll {α : Type} (r : Reader α) (s : List UInt8) : Except Fault α :=
  match r.run maxRoom s with
  | .error e => .error e
  | .ok (a, rest) => if dropBlanks rest = [] then .ok a else .error .trailingCharacters

def tryMap {α β : Type} (r : Reader α) (f : α → Except Fault β) : Reader β where
  run room s :=
    match r.run room s with
    | .error e => .error e
    | .ok (a, rest) => (f a).map (·, rest)
  consumes h := by
    split at h
    · simp at h
    · rename_i hr
      obtain ⟨b, -, rfl⟩ := map_eq_ok_iff.1 h
      exact r.consumes hr

def map {α β : Type} (r : Reader α) (f : α → β) : Reader β :=
  r.tryMap fun a => .ok (f a)

/-! ### Values without parts -/

/-- A value without parts that `pick` accepts. -/
def leaf {α : Type} (wanted : String) (pick : Leaf → Except Fault α) : Reader α where
  run _ s :=
    let s := dropBlanks s
    match readLeaf s with
    | .error _ => .error (mismatch wanted s)
    | .ok (l, rest) => (pick l).map (·, rest)
  consumes {_ s t} h := by
    have hs := length_dropBlanks_le s
    simp only at h
    split at h
    · simp at h
    · rename_i hr
      have := length_readLeaf_lt hr
      obtain ⟨b, -, rfl⟩ := map_eq_ok_iff.1 h
      exact Nat.lt_of_lt_of_le this hs

def text : Reader String :=
  leaf "a string" fun
    | .text s => .ok s
    | l => .error (.wrongType l.found "a string")

def boolean : Reader Bool :=
  leaf "a boolean" fun
    | .boolean b => .ok b
    | l => .error (.wrongType l.found "a boolean")

def unit : Reader Unit :=
  leaf "unit" fun
    | .null => .ok ()
    | l => .error (.wrongType l.found "unit")

/-- An integer that fits in a byte. -/
def byte : Reader UInt8 :=
  leaf "u8" fun
    | .number (.natural n) => if n < 256 then .ok (.ofNat n) else .error (.wrongValue (.natural n) "u8")
    | .number (.negative n) => .error (.wrongValue (.negative n) "u8")
    | l => .error (.wrongType l.found "u8")

/-! ### Lists -/

/-- Where a list or map goes on: after its closing bracket, or at its next part. -/
inductive Next where
  | closed (rest : List UInt8)
  | part (s : List UInt8)

def Next.rest : Next → List UInt8
  | closed rest => rest
  | part s => s

/-- The next element of a list; after the first one a comma comes before it. -/
def nextElement (first : Bool) (s : List UInt8) : Except Fault Next :=
  match dropBlanks s with
  | [] => .error .endInList
  | b :: r =>
    if b = closeList then .ok (.closed r)
    else if first then .ok (.part (b :: r))
    else if b = comma then
      match dropBlanks r with
      | [] => .error .endInValue
      | c :: t => if c = closeList then .error .trailingComma else .ok (.part (c :: t))
    else .error .expectedListEnd

theorem length_nextElement_le {first : Bool} {s : List UInt8} {n : Next} (h : nextElement first s = .ok n) :
    n.rest.length ≤ s.length := by
  have := length_dropBlanks_le s
  have : ∀ t, (dropBlanks t).length ≤ t.length := length_dropBlanks_le
  grind [nextElement, Next.rest]

theorem length_closed_lt {first : Bool} {s r : List UInt8} (h : nextElement first s = .ok (.closed r)) :
    r.length < s.length := by
  have := length_dropBlanks_le s
  grind [nextElement]

/-- The elements of a list from one of them, or from the end of the list, on. -/
def elements {α : Type} (r : Reader α) (room : Nat) (first : Bool) (s : List UInt8) :
    Except Fault (List α × List UInt8) :=
  match hn : nextElement first s with
  | .error e => .error e
  | .ok (.closed rest) => .ok ([], rest)
  | .ok (.part t) =>
    match ha : r.run room t with
    | .error e => .error e
    | .ok (a, u) =>
      have : u.length < s.length := Nat.lt_of_lt_of_le (r.consumes ha) (length_nextElement_le hn)
      (elements r room false u).map fun v => (a :: v.1, v.2)
termination_by s.length

theorem length_elements_lt {α : Type} {r : Reader α} {room : Nat} {first : Bool} {s : List UInt8}
    {t : List α × List UInt8} (h : elements r room first s = .ok t) : t.2.length < s.length := by
  fun_induction elements r room first s generalizing t with
  | case1 => simp at h
  | case2 first s rest hn =>
    simp only [Except.ok.injEq] at h
    exact h ▸ length_closed_lt hn
  | case3 => simp at h
  | case4 first s t' hn a u ha hu ih =>
    obtain ⟨v, hv, rfl⟩ := map_eq_ok_iff.1 h
    have := ih hv
    exact Nat.lt_trans this hu

/-- A list of what `r` reads. -/
def list {α : Type} (r : Reader α) : Reader (List α) where
  run room s :=
    match dropBlanks s with
    | [] => .error .endInValue
    | b :: rest =>
      if b = openList then
        match room with
        | 0 => .error .tooDeep
        | room + 1 => elements r room true rest
      else .error (mismatch "a sequence" (b :: rest))
  consumes {room s t} h := by
    have hs := length_dropBlanks_le s
    split at h
    · simp at h
    · rename_i hd
      rw [hd] at hs
      split at h
      · split at h
        · simp at h
        · exact Nat.lt_trans (length_elements_lt h) hs
      · simp at h

end Reader

end OpcodeTables.Json
