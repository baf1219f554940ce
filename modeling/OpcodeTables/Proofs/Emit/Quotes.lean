import OpcodeTables.Proofs.Emit.Entry
import Mathlib.Algebra.Group.Even

/-!
# Quoted parts of sources

A text that is cut at its double quotes is outside and inside quotes by turns (`outsideQuotes`, `insideQuotes`).  A
piece with a pair of quotes for each quoted part is cut in the same way whatever follows it (`Cuts`).  So the quoted
parts of a source are those of its lines: bare lines have none, and an entry has its name (`cuts_sourceLines`).
-/

namespace OpcodeTables.Emit

/-! ### Cutting at quotes -/

/-- Of parts that are outside and inside quotes by turns, those inside. -/
def innerParts : List (List Char) → List (List Char)
  | _ :: quoted :: parts => quoted :: innerParts parts
  | _ => []

/-- Of parts that are outside and inside quotes by turns, those outside. -/
def outerParts : List (List Char) → List (List Char)
  | unquoted :: _ :: parts => unquoted :: outerParts parts
  | parts => parts

/-- The quoted parts of a text. -/
def insideQuotes (s : List Char) : List (List Char) :=
  innerParts (s.splitOn '"')

/-- The text without its quoted parts. -/
def outsideQuotes (s : List Char) : List Char :=
  (outerParts (s.splitOn '"')).flatten

/-- The quotes of the text come in pairs around the quoted parts, and the rest of it is outside quotes. -/
structure Cuts (s : List Char) (quoted : List (List Char)) (unquoted : List Char) : Prop where
  even : Even (s.count '"')
  inside : ∀ rest, insideQuotes (s ++ rest) = quoted ++ insideQuotes rest
  outside : ∀ rest, outsideQuotes (s ++ rest) = unquoted ++ outsideQuotes rest

section

variable {s t u v : List Char} {qs rs : List (List Char)}

theorem Cuts.insideQuotes_eq (h : Cuts s qs u) : insideQuotes s = qs := by
  have hinside := h.inside []
  rwa [List.append_nil, show insideQuotes [] = [] from rfl, List.append_nil] at hinside

theorem Cuts.outsideQuotes_eq (h : Cuts s qs u) : outsideQuotes s = u := by
  have houtside := h.outside []
  rwa [List.append_nil, show outsideQuotes [] = [] from rfl, List.append_nil] at houtside

theorem Cuts.append (hs : Cuts s qs u) (ht : Cuts t rs v) : Cuts (s ++ t) (qs ++ rs) (u ++ v) where
  even := by
    rw [List.count_append]
    exact hs.even.add ht.even
  inside rest := by rw [List.append_assoc, hs.inside, ht.inside, List.append_assoc]
  outside rest := by rw [List.append_assoc, hs.outside, ht.outside, List.append_assoc]

/-- What stands before the first quote goes to the first part. -/
private theorem splitOn_append_of_not_mem (h : '"' ∉ s) (rest : List Char) :
    (s ++ rest).splitOn '"' = (rest.splitOn '"').modifyHead (s ++ ·) := by
  obtain ⟨part, parts, hparts⟩ := List.exists_cons_of_ne_nil (List.splitOn_ne_nil '"' rest)
  induction s with
  | nil =>
    rw [List.nil_append, hparts]
    rfl
  | cons c s ih =>
    rw [List.mem_cons, not_or] at h
    rw [List.cons_append, List.splitOn_cons_eq_if_modifyHead, if_neg (by simpa using Ne.symm h.1), ih h.2, hparts]
    rfl

theorem cuts_unquoted (h : '"' ∉ s) : Cuts s [] s where
  even := by
    rw [List.count_eq_zero_of_not_mem h]
    exact Even.zero
  inside rest := by
    rw [insideQuotes, splitOn_append_of_not_mem h, insideQuotes]
    rcases rest.splitOn '"' with _ | ⟨part, _ | ⟨quoted, parts⟩⟩ <;> rfl
  outside rest := by
    rw [outsideQuotes, splitOn_append_of_not_mem h, outsideQuotes]
    obtain ⟨part, parts, hparts⟩ := List.exists_cons_of_ne_nil (List.splitOn_ne_nil '"' rest)
    rw [hparts]
    cases parts <;> simp [outerParts]

theorem cuts_quoted (h : '"' ∉ s) : Cuts ('"' :: s ++ ['"']) [s] [] := by
  have hsplit : ∀ rest, ('"' :: s ++ ['"'] ++ rest).splitOn '"' = [] :: s :: rest.splitOn '"' := by
    intro rest
    have hparts := List.splitOn_append_cons_self_of_not_mem h rest
    rw [List.append_assoc, List.cons_append, List.splitOn_cons_eq_if_modifyHead, if_pos (by rfl)]
    rw [← hparts]
    rfl
  constructor
  · rw [List.cons_append, List.count_cons_self, List.count_append, List.count_eq_zero_of_not_mem h]
    decide
  · intro rest
    rw [insideQuotes, hsplit]
    rfl
  · intro rest
    rw [outsideQuotes, hsplit]
    rfl

theorem Cuts.flatMap {α : Type} {f g : α → List Char} {quoted : α → List Char} {l : List α}
    (h : ∀ a ∈ l, Cuts (f a) [quoted a] (g a)) : Cuts (l.flatMap f) (l.map quoted) (l.flatMap g) := by
  induction l with
  | nil => exact cuts_unquoted List.not_mem_nil
  | cons a l ih =>
    obtain ⟨ha, hl⟩ := List.forall_mem_cons.1 h
    exact ha.append (ih hl)

end

/-! ### Lines -/

theorem Line.Bare.unquoted_chars {l : Line} (h : l.Bare) : '"' ∉ l.chars := by
  simp only [Line.chars, List.mem_append, not_or]
  exact ⟨⟨fun hm => absurd (List.eq_of_mem_replicate hm) (by decide), h.unquoted⟩, by decide⟩

theorem cuts_lines {ls : List Line} (h : ∀ l ∈ ls, l.Bare) :
    Cuts (ls.flatMap Line.chars) [] (ls.flatMap Line.chars) := by
  refine cuts_unquoted fun hm => ?_
  obtain ⟨l, hl, hm⟩ := List.mem_flatMap.1 hm
  exact (h l hl).unquoted_chars hm

/-- The line of an entry without its name. -/
def Cell.bareLine (b : Initializer.Bracket) (x : Cell) : Line :=
  ⟨1, String.ofList (b.openChar :: ',' :: ' ' :: x.number ++ [b.closeChar, ','])⟩

theorem Cell.cuts_line {b : Initializer.Bracket} {x : Cell} (hx : x.Valid) :
    Cuts (x.line b).chars [x.name] (x.bareLine b).chars := by
  have hindent : '"' ∉ List.replicate 4 ' ' ++ [b.openChar] := by cases b <;> decide
  have hbehind : '"' ∉ [',', ' '] ++ x.number ++ [b.closeChar, ',', '\n'] := by
    have hclose : '"' ≠ b.closeChar := by cases b <;> decide
    simp [hclose, hx.number.bare.unquoted]
  have hcuts := ((cuts_unquoted hindent).append (cuts_quoted hx.name.unquoted)).append (cuts_unquoted hbehind)
  simpa [Line.chars, text_line, Cell.line, bareLine] using hcuts

theorem cuts_sourceLines {b : Initializer.Bracket} {stop : Line} {t : Tables}
    {opening opening' middle closing : List Line} {quoted : List (List Char)}
    (hnames : ∀ name ∈ t.names, Document.IsName name) (hstop : stop.Bare)
    (hopening : Cuts (opening.flatMap Line.chars) quoted (opening'.flatMap Line.chars))
    (hmiddle : ∀ l ∈ middle, l.Bare) (hclosing : ∀ l ∈ closing, l.Bare) :
    Cuts (render (sourceLines (Cell.line b) stop t opening middle closing)).toList
      (quoted ++ t.names.map String.toList)
      (render (sourceLines (Cell.bareLine b) stop t opening' middle closing)).toList := by
  have hcells : ∀ {xs : List Cell}, (∀ x ∈ xs, x.Valid) →
      Cuts ((xs.map (Cell.line b)).flatMap Line.chars) (xs.map Cell.name)
        ((xs.map (Cell.bareLine b)).flatMap Line.chars) := by
    intro xs hxs
    rw [List.flatMap_map, List.flatMap_map]
    exact Cuts.flatMap fun x hx => Cell.cuts_line (hxs x hx)
  have hregisters := hcells (Tables.valid_registerCells hnames)
  have hindex := hcells (Tables.valid_indexCells hnames)
  have hfirst := cuts_lines (List.forall_mem_cons.2 ⟨hstop, hmiddle⟩)
  have hsecond := cuts_lines (List.forall_mem_cons.2 ⟨hstop, hclosing⟩)
  have hall := hopening.append (hregisters.append (hfirst.append (hindex.append hsecond)))
  have hquoted : t.names.map String.toList = t.registerCells.map Cell.name ++ t.indexCells.map Cell.name := by
    rw [Tables.names, Tables.registerCells, Tables.indexCells, List.map_append]
    simp only [List.map_map]
    rfl
  rw [hquoted, render, render, String.toList_ofList, String.toList_ofList]
  simpa [sourceLines] using hall

end OpcodeTables.Emit
