import OpcodeTables.Report
import OpcodeTables.Text.Numeral

/-!
# Flags of a form

Two independent bits tell the encoder how to handle a form: bit 0, the operand's type byte is encoded; bit 1, the
opcode depends on the operand's type.
-/

namespace OpcodeTables

structure Flags where
  encodeType : Bool
  typeVariants : Bool
deriving DecidableEq

namespace Flags

def none : Flags := ⟨false, false⟩

/-- The bits that carry meaning. -/
def mask : UInt8 := 3

def bits (f : Flags) : UInt8 :=
  (if f.encodeType then 1 else 0) + (if f.typeVariants then 2 else 0)

/-- The flags with the given bits, unless a bit without meaning is set. -/
def ofBits? (b : UInt8) : Option Flags :=
  if b &&& ~~~mask = 0 then some ⟨b &&& 1 ≠ 0, b &&& 2 ≠ 0⟩ else Option.none

theorem ofBits?_bits (f : Flags) : ofBits? f.bits = some f := by
  obtain ⟨a, b⟩ := f
  cases a <;> cases b <;> decide

theorem bits_of_ofBits? {b : UInt8} {f : Flags} (h : ofBits? b = some f) : f.bits = b := by
  have all : ∀ n < 256, (ofBits? (.ofNat n)).all fun g => g.bits == .ofNat n := by decide +kernel
  have hb := all b.toNat b.toNat_lt
  rw [UInt8.ofNat_toNat, h] at hb
  simpa using hb

/-- The flags as a sum of constants in generated sources. -/
def symbols : Flags → String
  | ⟨false, false⟩ => "0"
  | ⟨true, false⟩ => "INSTR_FLAG_ENCODE_TYPE"
  | ⟨false, true⟩ => "INSTR_FLAG_TYPE_VARIANTS"
  | ⟨true, true⟩ => "INSTR_FLAG_ENCODE_TYPE | INSTR_FLAG_TYPE_VARIANTS"

theorem symbols_injective : Function.Injective symbols := by
  rintro ⟨a, b⟩ ⟨a', b'⟩ h
  cases a <;> cases b <;> cases a' <;> cases b' <;> first | rfl | (revert h; decide)

/-- The complaint about a byte with other bits: the byte has at least two hexadecimal digits. -/
def unknownMessage (b : UInt8) : String :=
  Report.malformed ("unknown flag bits 0x" ++ (if b < 0x10 then "0" else "") ++ Text.hexLower b.toNat)

end Flags

end OpcodeTables
