import OpcodeTables.Emit.Line
import OpcodeTables.Tables

/-!
# Tables as a C++ header

The registers are a map at the top level; the instruction names and the forms of the instructions stand in a namespace.
-/

namespace OpcodeTables.Emit.CppHeader

def preamble : List Line :=
  [⟨0, "// ======================================================================== //"⟩,
   ⟨0, "// UVM assembler encoding tables"⟩,
   ⟨0, "// ======================================================================== //"⟩,
   ⟨0, ""⟩,
   ⟨0, "#pragma once"⟩,
   ⟨0, "#include \"asm.hpp\""⟩,
   ⟨0, "#include <array>"⟩,
   ⟨0, "#include <cstdint>"⟩,
   ⟨0, "#include <map>"⟩,
   ⟨0, "#include <string>"⟩,
   ⟨0, "#include <vector>"⟩,
   ⟨0, ""⟩,
   ⟨0, "/*"⟩,
   ⟨1, notice⟩,
   ⟨0, "*/"⟩,
   ⟨0, ""⟩]

def registerLine (r : Tables.RegisterEntry) : Line :=
  ⟨1, "\x7b\"" ++ r.name ++ "\", 0x" ++ Text.hexUpper r.code.toNat ++ "\x7d,"⟩

def indexLine (e : Tables.IndexEntry) : Line :=
  ⟨1, "\x7b\"" ++ e.name ++ "\", " ++ Text.decimal e.index.toNat ++ "\x7d,"⟩

def variantLine (v : Tables.VariantEntry) : Line :=
  ⟨4, "\x7b" ++ v.type.symbol ++ ", " ++ v.opcode.source ++ "\x7d,"⟩

/-- The kinds of the operands on one line, or no line when there are none. -/
def paramLines (kinds : List OperandKind) : List Line :=
  if kinds.isEmpty then []
  else [⟨4, " ".intercalate (kinds.map fun k => "InstrParamType::" ++ k.symbol ++ ",")⟩]

def formLines (f : Tables.Form) : List Line :=
  [⟨2, "InstrParamList\x7b"⟩, ⟨3, f.opcode.source ++ ","⟩, ⟨3, f.flags.symbols ++ ","⟩, ⟨3, "\x7b"⟩] ++
    paramLines f.params ++ [⟨3, "\x7d,"⟩, ⟨3, "\x7b"⟩] ++ f.variants.map variantLine ++ [⟨3, "\x7d,"⟩, ⟨2, "\x7d,"⟩]

def instructionLines (fs : List Tables.Form) : List Line :=
  ⟨1, "std::vector<InstrParamList>\x7b"⟩ :: fs.flatMap formLines ++ [⟨1, "\x7d,"⟩]

/-- The lines of the header with its namespace. -/
def lines (t : Tables) (namespaceName : String) : List Line :=
  preamble ++
    [⟨0, "const std::map<std::string, uint8_t> ASM_REGISTERS \x7b"⟩] ++ t.registers.map registerLine ++
    [⟨0, "\x7d;"⟩, ⟨0, ""⟩, ⟨0, "namespace " ++ namespaceName ++ " \x7b"⟩,
     ⟨0, "const std::map<std::string, uint8_t> INSTR_NAMES \x7b"⟩] ++ t.index.map indexLine ++
    [⟨0, "\x7d;"⟩, ⟨0, ""⟩,
     ⟨0, "const std::array<std::vector<InstrParamList>, " ++ Text.decimal t.instructions.length ++
       "> INSTR_ASM_DEFS \x7b"⟩] ++
    t.instructions.flatMap instructionLines ++
    [⟨0, "\x7d;"⟩, ⟨0, ""⟩, ⟨0, "\x7d // namespace " ++ namespaceName⟩]

def text (t : Tables) (namespaceName : String) : String :=
  render (lines t namespaceName)

end OpcodeTables.Emit.CppHeader
