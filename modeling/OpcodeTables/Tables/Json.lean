import OpcodeTables.Json.Layout
import OpcodeTables.Json.Record
import OpcodeTables.Json.Variant
import OpcodeTables.Tables

/-!
# Tables as JSON

Each entry of the tables is a record whose members are named like its parts, an opcode is a variant with its spelling,
and kinds and types are variants without content. What is read back is verified.
-/

namespace OpcodeTables

open Json (Layout Reader)

namespace Opcode

def layout : Opcode → Layout
  | .literal value text =>
    .map [("Literal", .map [("value", .natural value.toNat), ("text", .text text)])]
  | .symbol name => .map [("Symbol", .text name)]

def literalReader : Reader Opcode :=
  (Reader.record "struct variant OpcodeValue::Literal" <|
    .cons "value" .byte <| .cons "text" .text .nil).map
  fun (value, text, _) => .literal value text

def reader : Reader Opcode :=
  .variant [⟨"Literal", .fields literalReader⟩, ⟨"Symbol", .content (Reader.text.map .symbol)⟩]

end Opcode

namespace Flags

def layout (f : Flags) : Layout :=
  .natural f.bits.toNat

def reader : Reader Flags :=
  Reader.byte.tryMap fun b =>
    match ofBits? b with
    | some f => .ok f
    | .none => .error (.unknownFlags b)

end Flags

def OperandKind.reader : Reader OperandKind :=
  .variant (all.map fun k => ⟨k.name, .bare k⟩)

def NumericType.reader : Reader NumericType :=
  .variant (all.map fun t => ⟨t.name, .bare t⟩)

namespace Tables

def RegisterEntry.layout (r : RegisterEntry) : Layout :=
  .map [("name", .text r.name), ("code", .natural r.code.toNat)]

def RegisterEntry.reader : Reader RegisterEntry :=
  (Reader.record "struct RegisterEntry" <|
    .cons "name" .text <| .cons "code" .byte .nil).map
  fun (name, code, _) => { name, code }

def IndexEntry.layout (e : IndexEntry) : Layout :=
  .map [("name", .text e.name), ("index", .natural e.index.toNat)]

def IndexEntry.reader : Reader IndexEntry :=
  (Reader.record "struct IndexEntry" <|
    .cons "name" .text <| .cons "index" .byte .nil).map
  fun (name, index, _) => { name, index }

def VariantEntry.layout (v : VariantEntry) : Layout :=
  .map [("ty", .text v.type.name), ("opcode", v.opcode.layout)]

def VariantEntry.reader : Reader VariantEntry :=
  (Reader.record "struct VariantEntry" <|
    .cons "ty" NumericType.reader <| .cons "opcode" Opcode.reader .nil).map
  fun (type, opcode, _) => { type, opcode }

def Form.layout (f : Form) : Layout :=
  .map [("opcode", f.opcode.layout), ("flags", f.flags.layout),
    ("params", .list (f.params.map fun k => .text k.name)),
    ("type_variants", .list (f.variants.map VariantEntry.layout))]

def Form.reader : Reader Form :=
  (Reader.record "struct ParamListRecord" <|
    .cons "opcode" Opcode.reader <| .cons "flags" Flags.reader <|
    .cons "params" (.list OperandKind.reader) <| .cons "type_variants" (.list VariantEntry.reader) .nil).map
  fun (opcode, flags, params, variants, _) => { opcode, flags, params, variants }

def layout (t : Tables) : Layout :=
  .map [("registers", .list (t.registers.map RegisterEntry.layout)),
    ("instruction_index", .list (t.index.map IndexEntry.layout)),
    ("instructions", .list (t.instructions.map fun fs => .list (fs.map Form.layout)))]

def reader : Reader Tables :=
  (Reader.record "struct EncodingTables" <|
    .cons "registers" (.list RegisterEntry.reader) <|
    .cons "instruction_index" (.list IndexEntry.reader) <|
    .cons "instructions" (.list (.list Form.reader)) .nil).map
  fun (registers, index, instructions, _) => { registers, index, instructions }

/-- The tables as a JSON text. -/
def toJson (t : Tables) : String :=
  String.ofList t.layout.document

/-- The tables that a JSON text spells. -/
def ofJson (s : List UInt8) : Except (DecodeFault Json.Fault) Tables :=
  verified (reader.readAll s)

end Tables

end OpcodeTables
