import OpcodeTables.Codec
import OpcodeTables.Tables.Json

/-!
# Binary images of tables

The parts of the tables one after the other, each by its codec. What is read back is verified; bytes after an image do
not matter.
-/

namespace OpcodeTables

def Opcode.codec : Codec Opcode :=
  (Codec.either (.pair .byte .text) .text).iso
    (fun
      | .inl (value, text) => .literal value text
      | .inr name => .symbol name)
    (fun
      | .literal value text => .inl (value, text)
      | .symbol name => .inr name)

def Flags.codec : Codec Flags :=
  Codec.byte.convert
    (fun b =>
      match ofBits? b with
      | some f => .ok f
      | .none => .error (.unknownFlags b))
    bits

def OperandKind.codec : Codec OperandKind :=
  .case all.length toNat ofNat?

def NumericType.codec : Codec NumericType :=
  .case all.length toNat ofNat?

namespace Tables

def RegisterEntry.codec : Codec RegisterEntry :=
  (Codec.pair .text .byte).iso (fun (name, code) => ⟨name, code⟩) fun r => (r.name, r.code)

def IndexEntry.codec : Codec IndexEntry :=
  (Codec.pair .text .byte).iso (fun (name, index) => ⟨name, index⟩) fun e => (e.name, e.index)

def VariantEntry.codec : Codec VariantEntry :=
  (NumericType.codec.pair Opcode.codec).iso (fun (type, opcode) => ⟨type, opcode⟩) fun v => (v.type, v.opcode)

def Form.codec : Codec Form :=
  (Opcode.codec.pair <| Flags.codec.pair <| (Codec.list OperandKind.codec).pair (.list VariantEntry.codec)).iso
    (fun (opcode, flags, params, variants) => ⟨opcode, flags, params, variants⟩)
    fun f => (f.opcode, f.flags, f.params, f.variants)

def codec : Codec Tables :=
  ((Codec.list RegisterEntry.codec).pair <| (Codec.list IndexEntry.codec).pair (.list (.list Form.codec))).iso
    (fun (registers, index, instructions) => ⟨registers, index, instructions⟩)
    fun t => (t.registers, t.index, t.instructions)

/-- The tables as bytes. -/
def image (t : Tables) : List UInt8 :=
  codec.encode t

/-- The tables of which the bytes begin with an image. -/
def ofImage (s : List UInt8) : Except (DecodeFault Codec.Fault) Tables :=
  verified ((codec.decode s).map (·.1))

end Tables

end OpcodeTables
