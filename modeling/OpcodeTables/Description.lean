import OpcodeTables.Opcode

/-!
# Instruction-set descriptions

A description lists the registers of a machine with their codes, and its instructions. An instruction has one or more
forms, each with an opcode and the tags of its operands; the opcode of a form may depend on the operand's type. Tags are
not resolved and names may repeat.
-/

namespace OpcodeTables

namespace Description

structure Register where
  name : String
  code : UInt8
deriving DecidableEq

/-- The opcode of a form for operands of one type. -/
structure Variant where
  type : String
  opcode : Opcode
deriving DecidableEq

structure Form where
  opcode : Opcode
  encodeType : Bool
  params : List String
  variants : List Variant
deriving DecidableEq

structure Instruction where
  name : String
  forms : List Form
deriving DecidableEq

end Description

structure Description where
  registers : List Description.Register
  instructions : List Description.Instruction
deriving DecidableEq

/-- The number of forms of all instructions. -/
def Description.formCount (d : Description) : Nat :=
  (d.instructions.flatMap (·.forms)).length

end OpcodeTables
