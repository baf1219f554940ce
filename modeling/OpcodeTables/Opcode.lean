import OpcodeTables.Integer
import OpcodeTables.Report
import OpcodeTables.Symbol
import OpcodeTables.Text.Blank
import OpcodeTables.Text.Quoted

/-!
# Opcodes

An opcode is a byte, kept together with its spelling, or a symbol that the consumer of the tables resolves.
-/

namespace OpcodeTables

inductive Opcode where
  | literal (value : UInt8) (text : String)
  | symbol (name : String)
deriving DecidableEq

namespace Opcode

/-- A byte spelled in decimal. -/
def ofByte (value : UInt8) : Opcode :=
  .literal value (Text.decimal value.toNat)

def value? : Opcode → Option UInt8
  | .literal value _ => some value
  | .symbol _ => none

/-- The spelling that generated sources repeat. -/
def source : Opcode → String
  | .literal _ text => text
  | .symbol name => name

def isSymbol : Opcode → Bool
  | .literal .. => false
  | .symbol _ => true

/-- Why a text spells no opcode. -/
inductive Fault where
  | tooLarge (text : String)
  | unreadable (text : String)
deriving DecidableEq

def Fault.problem : Fault → String
  | .tooLarge text => "opcode " ++ text ++ " does not fit in a byte"
  | .unreadable text => "opcode " ++ Text.quoted text ++ " is neither a number nor a symbol"

def Fault.message (f : Fault) : String :=
  Report.malformed f.problem

/-- The opcode that a text spells, blanks around it aside. -/
def parse (s : String) : Except Fault Opcode :=
  let text := String.ofList (Text.trim s.toList)
  match Integer.read? text.toList with
  | some v => if v < 256 then .ok (.literal (.ofNat v) text) else .error (.tooLarge text)
  | none => if Symbol.isSymbol text then .ok (.symbol text) else .error (.unreadable text)

end Opcode

end OpcodeTables
