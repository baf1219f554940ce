import OpcodeTables.Emit.CppHeader
import OpcodeTables.Emit.RustSource
import OpcodeTables.Proofs.Emit.Line
import OpcodeTables.Proofs.Emit.Word

/-!
# Entries with names

Registers and instructions are listed one entry a line: a name between quotes and a number, in brackets (`Cell.line`).
The generated languages differ in the bracket only, once the names are valid.  The line tells the name and the number
(`Cell.line_inj`), and these tell the entry of the tables (`cell_injective`).  Among the other lines of a source the
entries end where a line that is not indented ends them, so they are told from all its lines (`sourceLines_inj`).
-/

namespace OpcodeTables

namespace Emit

namespace Initializer.Bracket

def openChar : Bracket → Char
  | .round => '('
  | .square => '['
  | .curly => '\x7b'

def closeChar : Bracket → Char
  | .round => ')'
  | .square => ']'
  | .curly => '\x7d'

end Initializer.Bracket

open Initializer (Bracket)

/-- The characters of a name and of a number. -/
structure Cell where
  name : List Char
  number : List Char

namespace Cell

def line (b : Bracket) (x : Cell) : Line :=
  ⟨1, String.ofList (b.openChar :: '"' :: x.name ++ '"' :: ',' :: ' ' :: x.number ++ [b.closeChar, ','])⟩

/-- The name can stand between quotes on one line, and the number is a word. -/
structure Valid (x : Cell) : Prop where
  name : Bare x.name
  number : IsWord x.number
  ne_nil : x.number ≠ []

variable {b : Bracket} {x y : Cell}

theorem text_line : (x.line b).text.toList =
    [b.openChar, '"'] ++ (x.name ++ '"' :: ([',', ' '] ++ (x.number ++ [b.closeChar, ',']))) := by
  rw [line, String.toList_ofList]
  simp

theorem proper_line (hx : x.Valid) : (x.line b).Proper := by
  have hopen : '\n' ≠ b.openChar ∧ b.openChar ≠ ' ' := by cases b <;> decide
  have hclose : '\n' ≠ b.closeChar := by cases b <;> decide
  constructor
  · rw [text_line]
    simp [hopen.1, hclose, hx.name.unbroken, hx.number.bare.unbroken]
  · rw [text_line]
    simp [hopen.2]

theorem line_inj (hx : x.Valid) (hy : y.Valid) (h : x.line b = y.line b) : x = y := by
  have htext : (x.line b).text.toList = (y.line b).text.toList := by rw [h]
  rw [text_line, text_line] at htext
  obtain ⟨hname, hrest⟩ := append_char_inj hx.name.unquoted hy.name.unquoted (List.append_cancel_left htext)
  have hnumber := List.append_cancel_right (List.append_cancel_left hrest)
  obtain ⟨name, number⟩ := x
  obtain ⟨name', number'⟩ := y
  obtain rfl : name = name' := hname
  obtain rfl : number = number' := hnumber
  rfl

end Cell

end Emit

/-! ### Entries of tables -/

namespace Tables

def RegisterEntry.cell (r : RegisterEntry) : Emit.Cell :=
  ⟨r.name.toList, ("0x" ++ Text.hexUpper r.code.toNat).toList⟩

def IndexEntry.cell (e : IndexEntry) : Emit.Cell :=
  ⟨e.name.toList, (Text.decimal e.index.toNat).toList⟩

theorem RegisterEntry.cell_injective {r r' : RegisterEntry} (h : r.cell = r'.cell) : r = r' := by
  rw [cell, cell, Emit.Cell.mk.injEq] at h
  -- the numeral is read back as the code
  have hcode := Integer.read?_hexUpper r.code
  rw [h.2, Integer.read?_hexUpper, Option.some.injEq, UInt8.toNat_inj] at hcode
  obtain ⟨name, code⟩ := r
  obtain ⟨name', code'⟩ := r'
  obtain rfl : name = name' := String.toList_inj.1 h.1
  obtain rfl : code' = code := hcode
  rfl

theorem IndexEntry.cell_injective {e e' : IndexEntry} (h : e.cell = e'.cell) : e = e' := by
  rw [cell, cell, Emit.Cell.mk.injEq] at h
  have hindex := Text.decimal_injective (String.toList_inj.1 h.2)
  obtain ⟨name, index⟩ := e
  obtain ⟨name', index'⟩ := e'
  obtain rfl : name = name' := String.toList_inj.1 h.1
  obtain rfl : index = index' := UInt8.toNat_inj.1 hindex
  rfl

theorem RegisterEntry.valid_cell {r : RegisterEntry} (h : Document.IsName r.name) : r.cell.Valid where
  name := h.bare
  number := Emit.isWord_of_read? (Integer.read?_hexUpper r.code)
  ne_nil := by simp [cell]

theorem IndexEntry.valid_cell {e : IndexEntry} (h : Document.IsName e.name) : e.cell.Valid where
  name := h.bare
  number := Emit.isWord_decimal _
  ne_nil := Text.decimal_ne_nil _

/-- The entries of the registers. -/
def registerCells (t : Tables) : List Emit.Cell :=
  t.registers.map (·.cell)

/-- The entries of the index. -/
def indexCells (t : Tables) : List Emit.Cell :=
  t.index.map (·.cell)

theorem registerCells_inj {t t' : Tables} : t.registerCells = t'.registerCells ↔ t.registers = t'.registers :=
  List.map_inj_right fun _ _ => RegisterEntry.cell_injective

theorem indexCells_inj {t t' : Tables} : t.indexCells = t'.indexCells ↔ t.index = t'.index :=
  List.map_inj_right fun _ _ => IndexEntry.cell_injective

variable {t : Tables}

theorem valid_registerCells (h : ∀ name ∈ t.names, Document.IsName name) : ∀ x ∈ t.registerCells, x.Valid := by
  intro x hx
  obtain ⟨r, hr, rfl⟩ := List.mem_map.1 hx
  exact r.valid_cell (h _ (List.mem_append_left _ (List.mem_map_of_mem hr)))

theorem valid_indexCells (h : ∀ name ∈ t.names, Document.IsName name) : ∀ x ∈ t.indexCells, x.Valid := by
  intro x hx
  obtain ⟨e, he, rfl⟩ := List.mem_map.1 hx
  exact e.valid_cell (h _ (List.mem_append_right _ (List.mem_map_of_mem he)))

end Tables

/-! ### Entries among other lines -/

namespace Emit

open Document (IsName)
open Initializer (Bracket)

/-- The lines of a source with the entries of the registers and those of the index, both ended by the same line. -/
def sourceLines (entry : Cell → Line) (stop : Line) (t : Tables) (opening middle closing : List Line) : List Line :=
  opening ++ (t.registerCells.map entry ++ stop :: (middle ++ (t.indexCells.map entry ++ stop :: closing)))

section

variable {b : Bracket} {stop : Line} {t t' : Tables} {opening opening' middle middle' closing closing' : List Line}

theorem proper_sourceLines (hnames : ∀ name ∈ t.names, IsName name) (hstop : stop.Proper)
    (hopening : ∀ l ∈ opening, l.Proper) (hmiddle : ∀ l ∈ middle, l.Proper) (hclosing : ∀ l ∈ closing, l.Proper) :
    ∀ l ∈ sourceLines (Cell.line b) stop t opening middle closing, l.Proper := by
  have hcells : ∀ {xs : List Cell}, (∀ x ∈ xs, x.Valid) → ∀ l ∈ xs.map (Cell.line b), l.Proper := by
    intro xs hxs l hl
    obtain ⟨x, hx, rfl⟩ := List.mem_map.1 hl
    exact Cell.proper_line (hxs x hx)
  simp only [sourceLines, List.forall_mem_append, List.forall_mem_cons]
  exact ⟨hopening, hcells (Tables.valid_registerCells hnames), hstop, hmiddle, hcells (Tables.valid_indexCells hnames),
    hstop, hclosing⟩

/-- Entries end where a line that is not indented ends them, and they are told from their lines. -/
theorem Cell.lines_inj {xs ys : List Cell} {r s : List Line} (hxs : ∀ x ∈ xs, x.Valid) (hys : ∀ y ∈ ys, y.Valid)
    (hstop : stop.depth = 0) (h : xs.map (Cell.line b) ++ stop :: r = ys.map (Cell.line b) ++ stop :: s) :
    xs = ys ∧ r = s := by
  have hdepth : ∀ zs : List Cell, ∀ l ∈ zs.map (Cell.line b), l.depth = 1 := by
    intro zs l hl
    obtain ⟨z, -, rfl⟩ := List.mem_map.1 hl
    rfl
  have hne : ¬ stop.depth = 1 := by omega
  obtain ⟨hlines, -, hrest⟩ := append_cons_inj (hdepth xs) (hdepth ys) hne hne h
  exact ⟨map_inj_of_mem (fun _ _ hx hy => Cell.line_inj hx hy) hxs hys hlines, hrest⟩

theorem sourceLines_inj (hnames : ∀ name ∈ t.names, IsName name) (hnames' : ∀ name ∈ t'.names, IsName name)
    (hstop : stop.depth = 0) (hopening : opening.length = opening'.length) (hmiddle : middle.length = middle'.length)
    (h : sourceLines (Cell.line b) stop t opening middle closing =
      sourceLines (Cell.line b) stop t' opening' middle' closing') :
    t.registers = t'.registers ∧ middle = middle' ∧ t.index = t'.index ∧ closing = closing' := by
  obtain ⟨-, hfirst⟩ := List.append_inj h hopening
  obtain ⟨hregisters, hbehind⟩ :=
    Cell.lines_inj (Tables.valid_registerCells hnames) (Tables.valid_registerCells hnames') hstop hfirst
  obtain ⟨rfl, hsecond⟩ := List.append_inj hbehind hmiddle
  obtain ⟨hindex, rfl⟩ :=
    Cell.lines_inj (Tables.valid_indexCells hnames) (Tables.valid_indexCells hnames') hstop hsecond
  exact ⟨Tables.registerCells_inj.1 hregisters, rfl, Tables.indexCells_inj.1 hindex, rfl⟩

end

/-! ### Entries in the languages -/

theorem CppHeader.map_registerLine (t : Tables) :
    t.registers.map registerLine = t.registerCells.map (Cell.line .curly) := by
  rw [Tables.registerCells, List.map_map]
  refine List.map_congr_left fun r _ => ?_
  simp [registerLine, Cell.line, Tables.RegisterEntry.cell, Initializer.Bracket.openChar,
    Initializer.Bracket.closeChar, ← String.toList_inj]

theorem CppHeader.map_indexLine (t : Tables) : t.index.map indexLine = t.indexCells.map (Cell.line .curly) := by
  rw [Tables.indexCells, List.map_map]
  refine List.map_congr_left fun e _ => ?_
  simp [indexLine, Cell.line, Tables.IndexEntry.cell, Initializer.Bracket.openChar, Initializer.Bracket.closeChar,
    ← String.toList_inj]

/-- A valid name is quoted as it is. -/
theorem quoted_name {name : String} (h : IsName name) :
    (Text.quoted name).toList = '"' :: name.toList ++ ['"'] := by
  refine Text.quoted_eq fun c hc => ?_
  have := h.char c hc
  exact ⟨by omega, by omega, this.2.2⟩

theorem RustSource.map_registerLine {t : Tables} (h : ∀ name ∈ t.names, IsName name) :
    t.registers.map registerLine = t.registerCells.map (Cell.line .round) := by
  rw [Tables.registerCells, List.map_map]
  refine List.map_congr_left fun r hr => ?_
  have hname : IsName r.name := h _ (List.mem_append_left _ (List.mem_map_of_mem hr))
  simp [registerLine, Cell.line, Tables.RegisterEntry.cell, Initializer.Bracket.openChar,
    Initializer.Bracket.closeChar, ← String.toList_inj, quoted_name hname]

theorem RustSource.map_indexLine {t : Tables} (h : ∀ name ∈ t.names, IsName name) :
    t.index.map indexLine = t.indexCells.map (Cell.line .round) := by
  rw [Tables.indexCells, List.map_map]
  refine List.map_congr_left fun e he => ?_
  have hname : IsName e.name := h _ (List.mem_append_right _ (List.mem_map_of_mem he))
  simp [indexLine, Cell.line, Tables.IndexEntry.cell, Initializer.Bracket.openChar, Initializer.Bracket.closeChar,
    ← String.toList_inj, quoted_name hname]

end Emit

end OpcodeTables
