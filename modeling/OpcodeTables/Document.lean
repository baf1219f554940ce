import OpcodeTables.Json.Scalar

/-!
# Documents

The shape of a JSON document that describes an instruction set, before its content is checked: codes and opcodes are
still numbers or texts.
-/

namespace OpcodeTables

open Json (Reader Scalar)

namespace Document

structure Register where
  name : String
  bytecode : Scalar
deriving DecidableEq

structure Variant where
  type : String
  opcode : Scalar
deriving DecidableEq

structure Form where
  opcode : Scalar
  encodeType : Bool
  params : List String
  typeVariants : List Variant
deriving DecidableEq

structure Instruction where
  name : String
  paramList : List Form
deriving DecidableEq

end Document

structure Document where
  registers : List Document.Register
  instructions : List Document.Instruction
deriving DecidableEq

namespace Document

def Register.reader : Reader Register :=
  (Reader.record "struct RawRegister" <|
    .cons "name" .text <| .cons "bytecode" .scalar .nil).map
  fun (name, bytecode, _) => { name, bytecode }

def Variant.reader : Reader Variant :=
  (Reader.record "struct RawTypeVariant" <|
    .cons "type" .text <| .cons "opcode" .scalar .nil).map
  fun (type, opcode, _) => { type, opcode }

def Form.reader : Reader Form :=
  (Reader.record "struct RawParamList" <|
    .cons "opcode" .scalar <| .cons "encodeType" .boolean <| .cons "params" (.list .text) <|
    .cons "typeVariants" (.list Variant.reader) .nil).map
  fun (opcode, encodeType, params, typeVariants, _) => { opcode, encodeType, params, typeVariants }

def Instruction.reader : Reader Instruction :=
  (Reader.record "struct RawInstruction" <|
    .cons "name" .text <| .cons "paramList" (.list Form.reader) .nil).map
  fun (name, paramList, _) => { name, paramList }

def reader : Reader Document :=
  (Reader.record "struct RawSchema" <|
    .cons "registers" (.list Register.reader) <| .cons "instructions" (.list Instruction.reader) .nil).map
  fun (registers, instructions, _) => { registers, instructions }

/-- The document that JSON bytes spell. -/
def read (s : List UInt8) : Except Json.Fault Document :=
  reader.readAll s

end Document

end OpcodeTables
