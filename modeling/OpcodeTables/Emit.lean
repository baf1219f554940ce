import OpcodeTables.Emit.CppHeader
import OpcodeTables.Emit.RustSource
import OpcodeTables.Tables.Image
import OpcodeTables.Target

/-!
# Writing tables

The bytes of tables in each output format. Tables that do not belong together are written in none.
-/

namespace OpcodeTables

/-- The namespace of a header when no other is chosen. -/
def defaultNamespace : String :=
  "Asm"

namespace Tables

/-- The output for a format; only headers use the namespace. -/
def output (t : Tables) (target : Target) (namespaceName : String) : List UInt8 :=
  match target with
  | .cpp => Utf8.encode (Emit.CppHeader.text t namespaceName)
  | .rust => Utf8.encode (Emit.RustSource.text t)
  | .json => Utf8.encode t.toJson
  | .bincode => t.image

def emit (t : Tables) (target : Target) (namespaceName : String) : Except Breach (List UInt8) :=
  match t.verify with
  | .error b => .error b
  | .ok () => .ok (t.output target namespaceName)

theorem emit_eq_ok_iff {t : Tables} {target : Target} {namespaceName : String} {bytes : List UInt8} :
    t.emit target namespaceName = .ok bytes ↔ t.verify = .ok () ∧ bytes = t.output target namespaceName := by
  unfold emit
  split
  · rename_i h
    simp [h]
  · rename_i h
    simp [h, eq_comm]

end Tables

end OpcodeTables
