import OpcodeTables.Document.Content
import OpcodeTables.Emit
import OpcodeTables.Tables.Build

/-!
# Conversions

A conversion makes a description into an output: it loads the description, builds its tables and writes them. The first
step that fails ends it.
-/

namespace OpcodeTables

structure Conversion where
  target : Target
  policy : VariantPolicy := .strict
  namespaceName : String := defaultNamespace
deriving DecidableEq

namespace Conversion

inductive Fault where
  | description (fault : Description.Fault)
  | build (fault : Tables.BuildFault)
  | breach (breach : Tables.Breach)
deriving DecidableEq

def Fault.message : Fault → String
  | .description fault => fault.message
  | .build fault => fault.message
  | .breach b => b.message

/-- What stands behind a fault, when that has a message of its own. -/
def Fault.cause? : Fault → Option String
  | .build (.unknownTag _ _ source) => some source.message
  | _ => none

def Fault.ofBuild : Tables.DecodeFault Tables.BuildFault → Fault
  | .malformed fault => .build fault
  | .breach b => .breach b

/-- The output for the bytes of a description. -/
def run (c : Conversion) (s : List UInt8) : Except Fault (List UInt8) := do
  let d ← (Description.load s).mapError .description
  let t ← (d.build c.policy).mapError .ofBuild
  (t.emit c.target c.namespaceName).mapError .breach

end Conversion

end OpcodeTables
