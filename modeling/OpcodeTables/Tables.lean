import OpcodeTables.Flags
import OpcodeTables.Opcode
import OpcodeTables.Tag

/-!
# Encoding tables

The tables that an assembler works with: the codes of the registers, the index of the instructions, and the forms of
each instruction. Index and forms are looked up by position, so they belong together entry by entry; `verify` checks
that, and reports the first breach.
-/

namespace OpcodeTables

namespace Tables

structure RegisterEntry where
  name : String
  code : UInt8
deriving DecidableEq

structure IndexEntry where
  name : String
  index : UInt8
deriving DecidableEq

/-- The opcode of a form for operands of one type. -/
structure VariantEntry where
  type : NumericType
  opcode : Opcode
deriving DecidableEq

/-- A form of an instruction: the kinds of its operands, and how it is encoded. -/
structure Form where
  opcode : Opcode
  flags : Flags
  params : List OperandKind
  variants : List VariantEntry
deriving DecidableEq

/-- The opcode that holds for operands of the given type: that of the last variant for the type, if the form has
variants, and its own otherwise. -/
def Form.chosenOpcode (f : Form) (type : NumericType) : Opcode :=
  match if f.flags.typeVariants then f.variants.reverse.find? (·.type = type) else none with
  | some v => v.opcode
  | none => f.opcode

/-- The byte to encode for operands of the given type. There is none when the chosen opcode is a symbol. -/
def Form.opcodeFor (f : Form) (type : NumericType) : Option UInt8 :=
  (f.chosenOpcode type).value?

def Form.accepts (f : Form) (kinds : List OperandKind) : Bool :=
  f.params = kinds

/-- Whether the flag for variants says what the variants are. -/
def Form.isConsistent (f : Form) : Bool :=
  f.flags.typeVariants = !f.variants.isEmpty

end Tables

structure Tables where
  registers : List Tables.RegisterEntry
  index : List Tables.IndexEntry
  instructions : List (List Tables.Form)
deriving DecidableEq

namespace Tables

/-! ### Looking up -/

def registerCode? (t : Tables) (name : String) : Option UInt8 :=
  (t.registers.find? (·.name = name)).map (·.code)

def indexOf? (t : Tables) (name : String) : Option Nat :=
  (t.index.find? (·.name = name)).map (·.index.toNat)

/-- The forms of an instruction. -/
def forms? (t : Tables) (i : Nat) : Option (List Form) :=
  t.instructions[i]?

def form? (t : Tables) (i j : Nat) : Option Form :=
  (t.forms? i).bind (·[j]?)

/-! ### Verifying -/

/-- How tables fail to belong together. -/
inductive Breach where
  | lengths (index instructions : Nat)
  | misplaced (name : String) (expected found : Nat)
  | inconsistentFlags (instruction : String) (form : Nat) (flags : Flags)
deriving DecidableEq

def Breach.message : Breach → String
  | .lengths index instructions =>
    "Table mismatch: " ++ Text.decimal index ++ " indexed names but " ++ Text.decimal instructions ++
      " encoding entries"
  | .misplaced name expected found =>
    "Instruction " ++ name ++ " is indexed as " ++ Text.decimal found ++ " but sits at position " ++
      Text.decimal expected
  | .inconsistentFlags instruction form flags =>
    "Inconsistent flags " ++ flags.symbols ++ " in " ++ instruction ++ " (param list " ++ Text.decimal form ++ ")"

/-- The first entry whose index is not its position, positions counting from `i`. -/
def misplaced? (i : Nat) : List IndexEntry → Option Breach
  | [] => none
  | e :: es => if e.index.toNat = i then misplaced? (i + 1) es else some (.misplaced e.name i e.index.toNat)

/-- The first inconsistent form of an instruction, positions counting from `j`. -/
def inconsistent? (instruction : String) (j : Nat) : List Form → Option Breach
  | [] => none
  | f :: fs =>
    if f.isConsistent then inconsistent? instruction (j + 1) fs
    else some (.inconsistentFlags instruction j f.flags)

/-- The first breach: the lengths, then the positions, then the flags. -/
def breach? (t : Tables) : Option Breach :=
  if t.index.length ≠ t.instructions.length then some (.lengths t.index.length t.instructions.length)
  else (misplaced? 0 t.index).or ((t.index.zip t.instructions).findSome? fun e => inconsistent? e.1.name 0 e.2)

def verify (t : Tables) : Except Breach Unit :=
  match t.breach? with
  | some b => .error b
  | none => .ok ()

/-- Why no tables are had: what they should come from is bad, or they do not belong together. -/
inductive DecodeFault (ε : Type) where
  | malformed (fault : ε)
  | breach (breach : Breach)
deriving DecidableEq

/-- The tables that belong together. -/
def verified {ε : Type} : Except ε Tables → Except (DecodeFault ε) Tables
  | .error e => .error (.malformed e)
  | .ok t =>
    match t.verify with
    | .error b => .error (.breach b)
    | .ok () => .ok t

theorem verified_eq_ok_iff {ε : Type} {x : Except ε Tables} {t : Tables} :
    verified x = .ok t ↔ x = .ok t ∧ t.verify = .ok () := by
  cases x with
  | error e => simp [verified]
  | ok u =>
    simp only [verified, Except.ok.injEq]
    constructor
    · intro h
      split at h
      · simp at h
      · rename_i hu
        simp only [Except.ok.injEq] at h
        exact ⟨h, h ▸ hu⟩
    · rintro ⟨rfl, hu⟩
      simp [hu]

end Tables

end OpcodeTables
