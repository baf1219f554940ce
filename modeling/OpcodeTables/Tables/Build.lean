import OpcodeTables.Description
import OpcodeTables.Indexed
import OpcodeTables.Tables

/-!
# Tables of a description

Building the tables resolves the tags of a description and checks that names do not repeat. The first fault ends it:
too many instructions, then a repeated register, then instruction by instruction a repeated name and the faults of its
forms. What was built is verified.
-/

namespace OpcodeTables

/-- What to do with a type that has several variants in one form: refuse it, or keep all and let the last one count. -/
inductive VariantPolicy where
  | strict
  | lastWins
deriving DecidableEq

def VariantPolicy.name : VariantPolicy → String
  | .strict => "Strict"
  | .lastWins => "LastWins"

/-- The names that must not repeat. -/
inductive NameKind where
  | register
  | instruction
deriving DecidableEq

namespace Tables

inductive BuildFault where
  | tooManyInstructions (n : Nat)
  | duplicateName (kind : NameKind) (name : String)
  | unknownTag (instruction : String) (form : Nat) (source : UnknownTag)
  | duplicateVariant (instruction : String) (form : Nat) (type : NumericType)
deriving DecidableEq

/-- An index of one byte tells this many instructions apart. -/
def maxInstructions : Nat := 256

def BuildFault.message : BuildFault → String
  | .tooManyInstructions n =>
    "Too many instructions: " ++ Text.decimal n ++ " (the encoder indexes at most " ++ Text.decimal maxInstructions ++
      ")"
  | .duplicateName .register name => "Duplicate register name: " ++ name
  | .duplicateName .instruction name => "Duplicate instruction name: " ++ name
  | .unknownTag instruction form source =>
    instruction ++ " (param list " ++ Text.decimal form ++ "): " ++ source.message
  | .duplicateVariant instruction form type =>
    "Duplicate type variant " ++ type.symbol ++ " in " ++ instruction ++ " (param list " ++ Text.decimal form ++ ")"

/-- The entries of registers whose names are new. -/
def registerEntries (seen : List String) : List Description.Register → Except BuildFault (List RegisterEntry)
  | [] => .ok []
  | r :: rs =>
    if r.name ∈ seen then .error (.duplicateName .register r.name)
    else (registerEntries (r.name :: seen) rs).map (⟨r.name, r.code⟩ :: ·)

/-- The entries of variants after those of the types `seen`. -/
def variantEntries (policy : VariantPolicy) (instruction : String) (form : Nat) (seen : List NumericType) :
    List Description.Variant → Except BuildFault (List VariantEntry)
  | [] => .ok []
  | v :: vs =>
    match NumericType.ofTag v.type with
    | .error u => .error (.unknownTag instruction form u)
    | .ok type =>
      if policy = .strict ∧ type ∈ seen then .error (.duplicateVariant instruction form type)
      else (variantEntries policy instruction form (type :: seen) vs).map (⟨type, v.opcode⟩ :: ·)

/-- The kinds that tags name. -/
def kinds (instruction : String) (form : Nat) (tags : List String) : Except BuildFault (List OperandKind) :=
  Indexed.traverse (fun _ tag => (OperandKind.ofTag tag).mapError (.unknownTag instruction form)) 0 tags

def formOf (policy : VariantPolicy) (instruction : String) (j : Nat) (f : Description.Form) :
    Except BuildFault Form := do
  let params ← kinds instruction j f.params
  let variants ← variantEntries policy instruction j [] f.variants
  return { opcode := f.opcode, flags := ⟨f.encodeType, !f.variants.isEmpty⟩, params, variants }

/-- The forms of instructions whose names are new. -/
def instructionForms (policy : VariantPolicy) (seen : List String) :
    List Description.Instruction → Except BuildFault (List (List Form))
  | [] => .ok []
  | x :: xs =>
    if x.name ∈ seen then .error (.duplicateName .instruction x.name)
    else
      match Indexed.traverse (formOf policy x.name) 0 x.forms with
      | .error e => .error e
      | .ok forms => (instructionForms policy (x.name :: seen) xs).map (forms :: ·)

/-- The index of instructions, the first one having number `i`. -/
def indexEntries (i : Nat) : List Description.Instruction → List IndexEntry
  | [] => []
  | x :: xs => ⟨x.name, .ofNat i⟩ :: indexEntries (i + 1) xs

end Tables

/-- The tables of a description. -/
def Description.tables (policy : VariantPolicy) (d : Description) : Except Tables.BuildFault Tables :=
  if Tables.maxInstructions < d.instructions.length then .error (.tooManyInstructions d.instructions.length)
  else do
    let registers ← Tables.registerEntries [] d.registers
    let instructions ← Tables.instructionForms policy [] d.instructions
    return { registers, index := Tables.indexEntries 0 d.instructions, instructions }

/-- The tables of a description, verified. -/
def Description.build (policy : VariantPolicy) (d : Description) :
    Except (Tables.DecodeFault Tables.BuildFault) Tables :=
  Tables.verified (d.tables policy)

end OpcodeTables
