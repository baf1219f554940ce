import OpcodeTables.Emit
import OpcodeTables.Proofs.Json.Layout

/-!
# Tables written as JSON

The layout of each entry prints the entry for its reader (`prints` of each), so tables that are written as JSON are read
back; behind them blanks are accepted and nothing else (`ofJson_emit`).
-/

namespace OpcodeTables

open Json (Blank maxRoom)
open Json.Reader (Prints prints_bare prints_byte prints_content prints_record prints_text)

/-! ### Opcodes, flags, kinds and types -/

theorem Opcode.prints (o : Opcode) : Prints Opcode.reader 2 o.layout o := by
  cases o with
  | literal value text =>
    have hfields : Prints literalReader 1 (.map [("value", .natural value.toNat), ("text", .text text)])
        (.literal value text) :=
      Prints.map (a := (value, text, ()))
        (prints_record (.cons (prints_byte value) <| .cons (prints_text text) .nil) (by decide)) _
    exact prints_content (p := .fields literalReader) rfl hfields
  | symbol name =>
    have hname : Prints (Json.Reader.text.map Opcode.symbol) 0 (.text name) (.symbol name) := (prints_text name).map _
    exact (prints_content (p := .content _) rfl hname).mono (show 1 ≤ 2 by decide)

theorem Flags.prints (f : Flags) : Prints Flags.reader 0 f.layout f :=
  (prints_byte f.bits).tryMap (by rw [ofBits?_bits])

theorem OperandKind.prints (k : OperandKind) : Prints OperandKind.reader 0 (.text k.name) k :=
  prints_bare (by cases k <;> rfl)

theorem NumericType.prints (ty : NumericType) : Prints NumericType.reader 0 (.text ty.name) ty :=
  prints_bare (by cases ty <;> rfl)

/-! ### Entries -/

namespace Tables

theorem RegisterEntry.prints (r : RegisterEntry) : Prints RegisterEntry.reader 1 r.layout r :=
  Prints.map (a := (r.name, r.code, ()))
    (prints_record (.cons (prints_text r.name) <| .cons (prints_byte r.code) .nil) (by decide)) _

theorem IndexEntry.prints (e : IndexEntry) : Prints IndexEntry.reader 1 e.layout e :=
  Prints.map (a := (e.name, e.index, ()))
    (prints_record (.cons (prints_text e.name) <| .cons (prints_byte e.index) .nil) (by decide)) _

theorem VariantEntry.prints (v : VariantEntry) : Prints VariantEntry.reader 3 v.layout v := by
  have htype := v.type.prints.mono (show 0 ≤ 2 by decide)
  exact Prints.map (a := (v.type, v.opcode, ()))
    (prints_record (.cons htype <| .cons v.opcode.prints .nil) (by decide)) _

theorem Form.prints (f : Form) : Prints Form.reader 5 f.layout f := by
  have hopcode := f.opcode.prints.mono (show 2 ≤ 4 by decide)
  have hflags := f.flags.prints.mono (show 0 ≤ 4 by decide)
  have hparams := (Prints.list fun k (_ : k ∈ f.params) => k.prints).mono (show 1 ≤ 4 by decide)
  have hvariants := Prints.list fun v (_ : v ∈ f.variants) => v.prints
  exact Prints.map (a := (f.opcode, f.flags, f.params, f.variants, ()))
    (prints_record (.cons hopcode <| .cons hflags <| .cons hparams <| .cons hvariants .nil) (by decide)) _

theorem prints (t : Tables) : Prints Tables.reader 8 t.layout t := by
  have hregisters := (Prints.list fun r (_ : r ∈ t.registers) => r.prints).mono (show 2 ≤ 7 by decide)
  have hindex := (Prints.list fun e (_ : e ∈ t.index) => e.prints).mono (show 2 ≤ 7 by decide)
  have hforms : ∀ fs ∈ t.instructions, Prints (.list Form.reader) 6 (.list (fs.map Form.layout)) fs :=
    fun fs _ => Prints.list fun f _ => f.prints
  have hinstructions := Prints.list hforms
  exact Prints.map (a := (t.registers, t.index, t.instructions, ()))
    (prints_record (.cons hregisters <| .cons hindex <| .cons hinstructions .nil) (by decide)) _

/-! ### Reading back -/

theorem ofJson_toJson {t : Tables} (hv : t.verify = .ok ()) (s : List UInt8) :
    (Blank s → ofJson (Utf8.encode t.toJson ++ s) = .ok t) ∧
    (¬ Blank s → ofJson (Utf8.encode t.toJson ++ s) = .error (.malformed .trailingCharacters)) := by
  have h := t.prints.readAll (show 8 ≤ maxRoom by decide) s
  rw [toJson, Utf8.encode_ofList]
  constructor
  · intro hs
    exact verified_eq_ok_iff.2 ⟨h.1 hs, hv⟩
  · intro hs
    rw [ofJson, h.2 hs]
    rfl

/-- Tables that are written as JSON are read back from a document in which only space, tabs, line feeds and carriage
returns stand behind them; any other bytes behind them are refused. -/
theorem ofJson_emit (namespaceName : String) (t : Tables) (hv : t.verify = .ok ()) :
    ∃ bytes, t.emit .json namespaceName = .ok bytes ∧ ∀ s : List UInt8,
      ((∀ b ∈ s, b = 0x20 ∨ b = 0x9 ∨ b = 0xA ∨ b = 0xD) → ofJson (bytes ++ s) = .ok t) ∧
      ((¬ ∀ b ∈ s, b = 0x20 ∨ b = 0x9 ∨ b = 0xA ∨ b = 0xD) → ∃ e, ofJson (bytes ++ s) = .error e) := by
  refine ⟨_, emit_eq_ok_iff.2 ⟨hv, rfl⟩, fun s => ?_⟩
  have hblank : Blank s ↔ ∀ b ∈ s, b = 0x20 ∨ b = 0x9 ∨ b = 0xA ∨ b = 0xD := by
    simp [Blank, Json.isBlank, or_assoc]
  rw [← hblank]
  have h := ofJson_toJson hv s
  exact ⟨h.1, fun hs => ⟨_, h.2 hs⟩⟩

/-- Tables with a quote, a backslash, a control and a character of four bytes in their texts, and empty lists. -/
theorem ofJson_emit_escapes :
    let t : Tables :=
      { registers := [], index := [⟨"\"\\\x01\n", 0⟩],
        instructions := [[⟨.literal 7 "\x7f", ⟨false, true⟩, [], [⟨.i8, .symbol "😀"⟩]⟩]] }
    t.verify = .ok () ∧ ∃ bytes, t.emit .json "Asm" = .ok bytes ∧ ofJson (bytes ++ [0x20, 0xA]) = .ok t ∧
      ∃ e, ofJson (bytes ++ [0x20, 0x30]) = .error e := by
  intro t
  obtain ⟨bytes, he, h⟩ := ofJson_emit "Asm" t rfl
  exact ⟨rfl, bytes, he, (h [0x20, 0xA]).1 (by simp), (h [0x20, 0x30]).2 (by simp)⟩

end Tables

end OpcodeTables
