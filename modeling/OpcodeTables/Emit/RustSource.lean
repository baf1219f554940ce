import OpcodeTables.Emit.Line
import OpcodeTables.Tables

/-!
# Tables as Rust source

Three static arrays: the registers, the instruction names, and the forms of the instructions.
-/

namespace OpcodeTables.Emit.RustSource

def preamble : List Line :=
  [⟨0, "// " ++ notice⟩, ⟨0, ""⟩, ⟨0, "#![allow(clippy::all)]"⟩, ⟨0, ""⟩, ⟨0, "use super::*;"⟩, ⟨0, ""⟩]

/-- The declaration of an array. -/
def arrayLine (name element : String) (length : Nat) : Line :=
  ⟨0, "pub static " ++ name ++ ": [" ++ element ++ "; " ++ Text.decimal length ++ "] = ["⟩

def registerLine (r : Tables.RegisterEntry) : Line :=
  ⟨1, "(" ++ Text.quoted r.name ++ ", 0x" ++ Text.hexUpper r.code.toNat ++ "),"⟩

def indexLine (e : Tables.IndexEntry) : Line :=
  ⟨1, "(" ++ Text.quoted e.name ++ ", " ++ Text.decimal e.index.toNat ++ "),"⟩

def variantLine (v : Tables.VariantEntry) : Line :=
  ⟨4, "TypeVariant \x7b ty: " ++ v.type.symbol ++ ", opcode: " ++ v.opcode.source ++ " \x7d,"⟩

def paramsLine (kinds : List OperandKind) : Line :=
  ⟨3, "params: &[" ++ ", ".intercalate (kinds.map fun k => "InstrParamType::" ++ k.name) ++ "],"⟩

/-- The variants, on one line when there are none. -/
def variantLines (vs : List Tables.VariantEntry) : List Line :=
  if vs.isEmpty then [⟨3, "opcode_variants: &[],"⟩]
  else ⟨3, "opcode_variants: &["⟩ :: vs.map variantLine ++ [⟨3, "],"⟩]

def formLines (f : Tables.Form) : List Line :=
  [⟨2, "InstrParamList \x7b"⟩, ⟨3, "opcode: " ++ f.opcode.source ++ ","⟩, ⟨3, "flags: " ++ f.flags.symbols ++ ","⟩,
    paramsLine f.params] ++ variantLines f.variants ++ [⟨2, "\x7d,"⟩]

def instructionLines (fs : List Tables.Form) : List Line :=
  ⟨1, "&["⟩ :: fs.flatMap formLines ++ [⟨1, "],"⟩]

def lines (t : Tables) : List Line :=
  preamble ++
    [arrayLine "ASM_REGISTERS" "(&str, u8)" t.registers.length] ++ t.registers.map registerLine ++
    [⟨0, "];"⟩, ⟨0, ""⟩, arrayLine "INSTR_NAMES" "(&str, u8)" t.instructions.length] ++ t.index.map indexLine ++
    [⟨0, "];"⟩, ⟨0, ""⟩, arrayLine "INSTR_ASM_DEFS" "&[InstrParamList]" t.instructions.length] ++
    t.instructions.flatMap instructionLines ++ [⟨0, "];"⟩]

def text (t : Tables) : String :=
  render (lines t)

end OpcodeTables.Emit.RustSource
