import OpcodeTables.Description
import OpcodeTables.Document
import OpcodeTables.Indexed

/-!
# Content of a document

Names, codes and opcodes of a document are checked place by place: the registers first, then the instructions; of a
register the name before its code, of an instruction the name, then form by form the opcode before those of its
variants. A document without a bad place is a description.
-/

namespace OpcodeTables.Document

open Json (Scalar)

/-- A place of a document whose content is checked. Names help to find it. -/
inductive Place where
  | registerName (i : Nat)
  | registerCode (i : Nat) (name : String)
  | instructionName (i : Nat)
  | opcode (i : Nat) (name : String) (j : Nat)
  | variantOpcode (i : Nat) (name : String) (j k : Nat)
deriving DecidableEq

/-- What is wrong at a place. -/
inductive Problem where
  | emptyName
  | badCharacter (name : String) (c : Char)
  | notAnInteger (text : String)
  | outOfRange (value : Nat)
  | opcode (fault : Opcode.Fault)
deriving DecidableEq

def Place.text : Place → String
  | .registerName i => "registers[" ++ Text.decimal i ++ "].name"
  | .registerCode i name => "registers[" ++ Text.decimal i ++ "] (" ++ name ++ ").bytecode"
  | .instructionName i => "instructions[" ++ Text.decimal i ++ "].name"
  | .opcode i name j => form i name j ++ ".opcode"
  | .variantOpcode i name j k => form i name j ++ ".typeVariants[" ++ Text.decimal k ++ "].opcode"
where
  form (i : Nat) (name : String) (j : Nat) : String :=
    "instructions[" ++ Text.decimal i ++ "] (" ++ name ++ ").paramList[" ++ Text.decimal j ++ "]"

def Problem.text : Problem → String
  | .emptyName => "name is empty"
  | .badCharacter name c => "name " ++ Text.quoted name ++ " contains " ++ Text.quotedChar c
  | .notAnInteger text => Text.quoted text ++ " is not an integer"
  | .outOfRange value => Text.decimal value ++ " is out of range 0..=255"
  | .opcode fault => fault.problem

/-- The characters of names: printable ASCII but the space, the quote and the backslash. -/
def isNameChar (c : Char) : Bool :=
  0x21 ≤ c.toNat && c.toNat ≤ 0x7E && c ≠ '"' && c ≠ '\\'

def checkName (name : String) : Except Problem String :=
  if name.toList = [] then .error .emptyName
  else
    match name.toList.find? fun c => !isNameChar c with
    | some c => .error (.badCharacter name c)
    | none => .ok name

/-- A code is a number, or a text that spells one, blanks around it aside. -/
def checkCode (s : Scalar) : Except Problem UInt8 :=
  match s with
  | .natural n => ofNat n
  | .text t =>
    match Integer.read? (Text.trim t.toList) with
    | some n => ofNat n
    | none => .error (.notAnInteger t)
where
  ofNat (n : Nat) : Except Problem UInt8 :=
    if n < 256 then .ok (.ofNat n) else .error (.outOfRange n)

def checkOpcode : Scalar → Except Problem Opcode
  | .natural n => if n < 256 then .ok (.ofByte (.ofNat n)) else .error (.outOfRange n)
  | .text t => (Opcode.parse t).mapError .opcode

/-- A check at its place. -/
def atPlace {α : Type} (p : Place) (check : Except Problem α) : Except (Place × Problem) α :=
  check.mapError (p, ·)

def Register.check (i : Nat) (r : Register) : Except (Place × Problem) Description.Register := do
  let name ← atPlace (.registerName i) (checkName r.name)
  let code ← atPlace (.registerCode i name) (checkCode r.bytecode)
  return { name, code }

def Variant.check (p : Place) (v : Variant) : Except (Place × Problem) Description.Variant := do
  let opcode ← atPlace p (checkOpcode v.opcode)
  return { type := v.type, opcode }

def Form.check (i : Nat) (name : String) (j : Nat) (f : Form) : Except (Place × Problem) Description.Form := do
  let opcode ← atPlace (.opcode i name j) (checkOpcode f.opcode)
  let variants ← Indexed.traverse (fun k v => v.check (.variantOpcode i name j k)) 0 f.typeVariants
  return { opcode, encodeType := f.encodeType, params := f.params, variants }

def Instruction.check (i : Nat) (x : Instruction) : Except (Place × Problem) Description.Instruction := do
  let name ← atPlace (.instructionName i) (checkName x.name)
  let forms ← Indexed.traverse (fun j f => f.check i name j) 0 x.paramList
  return { name, forms }

/-- The description that a document holds, or its first bad place. -/
def check (d : Document) : Except (Place × Problem) Description := do
  let registers ← Indexed.traverse (fun i r => r.check i) 0 d.registers
  let instructions ← Indexed.traverse (fun i x => x.check i) 0 d.instructions
  return { registers, instructions }

end OpcodeTables.Document

namespace OpcodeTables.Description

/-- Why bytes are no description: they do not spell a document, or a place of it has bad content. -/
inductive Fault where
  | document (fault : Json.Fault)
  | content (place : Document.Place) (problem : Document.Problem)
deriving DecidableEq

def Fault.message : Fault → String
  | .document fault => Report.malformed fault.message
  | .content place problem => Report.malformed (place.text ++ ": " ++ problem.text)

/-- The description that JSON bytes spell. -/
def load (s : List UInt8) : Except Fault Description :=
  match Document.read s with
  | .error e => .error (.document e)
  | .ok d => d.check.mapError fun p => .content p.1 p.2

end OpcodeTables.Description
