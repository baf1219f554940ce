import OpcodeTables.Text.Quoted

/-!
# Operand kinds and numeric types

The roles that an operand can play and the numeric types of the machine. A description names both by short tags;
generated sources name them by symbols.
-/

namespace OpcodeTables

/-- The role of an operand. The constructors are in the order of the machine's numbering. -/
inductive OperandKind where
  | intType | floatType | funcId | labelId | intReg | floatReg | regOffset | intNum | floatNum | sysInt
deriving DecidableEq

/-- A numeric type of the machine. -/
inductive NumericType where
  | i8 | i16 | i32 | i64 | f32 | f64
deriving DecidableEq

/-- The two tables of tags. -/
inductive TagTable where
  | operandKind
  | numericType
deriving DecidableEq

/-- A tag that its table does not hold. -/
structure UnknownTag where
  table : TagTable
  tag : String
deriving DecidableEq

def UnknownTag.message (u : UnknownTag) : String :=
  let table := match u.table with
    | .operandKind => "parameter kind"
    | .numericType => "numeric type"
  "Unknown " ++ table ++ " tag: " ++ Text.quoted u.tag

/-! ### Looking up tags -/

section

variable {α : Type} {tag : α → String} {table : List α} {t : String}

private theorem tag_of_find? {a : α} (h : table.find? (fun b => tag b = t) = some a) : t = tag a := by
  have ht := List.find?_some h
  exact (of_decide_eq_true ht).symm

/-- Tags by which every element of the table is found do not repeat. -/
private theorem injective_of_find? (table : List α) (h : ∀ a, table.find? (fun b => tag b = tag a) = some a) :
    Function.Injective tag := by
  intro a b hab
  have ha := h a
  rw [hab, h b, Option.some.injEq] at ha
  exact ha.symm

private theorem find?_tag_eq_none_iff : table.find? (fun b => tag b = t) = none ↔ t ∉ table.map tag := by
  rw [List.find?_eq_none, List.mem_map]
  simp only [decide_eq_true_eq]
  exact ⟨fun h ⟨a, ha, ht⟩ => h a ha ht, fun h a ha ht => h ⟨a, ha, ht⟩⟩

end

namespace OperandKind

/-- Every kind, in the order of the machine's numbering. -/
def all : List OperandKind :=
  [.intType, .floatType, .funcId, .labelId, .intReg, .floatReg, .regOffset, .intNum, .floatNum, .sysInt]

def tag : OperandKind → String
  | .intType => "iT"
  | .floatType => "fT"
  | .funcId => "function"
  | .labelId => "label"
  | .intReg => "iReg"
  | .floatReg => "fReg"
  | .regOffset => "RO"
  | .intNum => "int"
  | .floatNum => "float"
  | .sysInt => "sysID"

def name : OperandKind → String
  | .intType => "IntType"
  | .floatType => "FloatType"
  | .funcId => "FuncId"
  | .labelId => "LabelId"
  | .intReg => "IntReg"
  | .floatReg => "FloatReg"
  | .regOffset => "RegOffset"
  | .intNum => "IntNum"
  | .floatNum => "FloatNum"
  | .sysInt => "SysInt"

def symbol : OperandKind → String
  | .intType => "INT_TYPE"
  | .floatType => "FLOAT_TYPE"
  | .funcId => "FUNC_ID"
  | .labelId => "LABEL_ID"
  | .intReg => "INT_REG"
  | .floatReg => "FLOAT_REG"
  | .regOffset => "REG_OFFSET"
  | .intNum => "INT_NUM"
  | .floatNum => "FLOAT_NUM"
  | .sysInt => "SYS_INT"

/-- The position in the machine's numbering. -/
def toNat : OperandKind → Nat
  | .intType => 0
  | .floatType => 1
  | .funcId => 2
  | .labelId => 3
  | .intReg => 4
  | .floatReg => 5
  | .regOffset => 6
  | .intNum => 7
  | .floatNum => 8
  | .sysInt => 9

def ofNat? (n : Nat) : Option OperandKind :=
  all[n]?

/-- The kinds in the order in which tags are tabulated. -/
def tabulated : List OperandKind :=
  [.intType, .floatType, .intReg, .floatReg, .funcId, .labelId, .regOffset, .intNum, .floatNum, .sysInt]

def ofTag (t : String) : Except UnknownTag OperandKind :=
  match tabulated.find? (·.tag = t) with
  | some k => .ok k
  | none => .error ⟨.operandKind, t⟩

/-- The tags that name kinds. -/
def tags : List String :=
  tabulated.map tag

theorem mem_tabulated (k : OperandKind) : k ∈ tabulated := by
  cases k <;> decide

theorem ofTag_eq_ok_iff {t : String} {k : OperandKind} : ofTag t = .ok k ↔ t = k.tag := by
  constructor
  · intro h
    rw [ofTag] at h
    split at h
    · rename_i hfound
      cases h
      exact tag_of_find? hfound
    · cases h
  · rintro rfl
    cases k <;> rfl

theorem ofTag_eq_error_iff {t : String} {u : UnknownTag} :
    ofTag t = .error u ↔ t ∉ tags ∧ u = ⟨.operandKind, t⟩ := by
  rw [ofTag, tags, ← find?_tag_eq_none_iff]
  split
  · rename_i hfound
    simp [hfound]
  · rename_i hnone
    rw [Except.error.injEq, eq_comm]
    simp only [hnone, true_and]

theorem symbol_injective : Function.Injective symbol :=
  injective_of_find? all fun k => by cases k <;> rfl

theorem name_injective : Function.Injective name :=
  injective_of_find? all fun k => by cases k <;> rfl

theorem ofNat?_eq_some_iff {n : Nat} {k : OperandKind} : ofNat? n = some k ↔ n = k.toNat := by
  constructor
  · intro h
    obtain ⟨hn, -⟩ := List.getElem?_eq_some_iff.1 h
    have hn : n < 10 := hn
    revert h k
    revert n
    decide +kernel
  · rintro rfl
    cases k <;> rfl

end OperandKind

namespace NumericType

def all : List NumericType :=
  [.i8, .i16, .i32, .i64, .f32, .f64]

def tag : NumericType → String
  | .i8 => "i8"
  | .i16 => "i16"
  | .i32 => "i32"
  | .i64 => "i64"
  | .f32 => "f32"
  | .f64 => "f64"

def name : NumericType → String
  | .i8 => "I8"
  | .i16 => "I16"
  | .i32 => "I32"
  | .i64 => "I64"
  | .f32 => "F32"
  | .f64 => "F64"

def symbol : NumericType → String
  | .i8 => "UVM_TYPE_I8"
  | .i16 => "UVM_TYPE_I16"
  | .i32 => "UVM_TYPE_I32"
  | .i64 => "UVM_TYPE_I64"
  | .f32 => "UVM_TYPE_F32"
  | .f64 => "UVM_TYPE_F64"

/-- The position in the declared order. -/
def toNat : NumericType → Nat
  | .i8 => 0
  | .i16 => 1
  | .i32 => 2
  | .i64 => 3
  | .f32 => 4
  | .f64 => 5

/-- The byte by which the machine's code names the type. -/
def code : NumericType → UInt8
  | .i8 => 0x01
  | .i16 => 0x02
  | .i32 => 0x03
  | .i64 => 0x04
  | .f32 => 0xF0
  | .f64 => 0xF1

def isFloat : NumericType → Bool
  | .f32 | .f64 => true
  | _ => false

def ofNat? (n : Nat) : Option NumericType :=
  all[n]?

def ofCode? (b : UInt8) : Option NumericType :=
  all.find? (·.code = b)

def ofTag (t : String) : Except UnknownTag NumericType :=
  match all.find? (·.tag = t) with
  | some ty => .ok ty
  | none => .error ⟨.numericType, t⟩

/-- The tags that name types. -/
def tags : List String :=
  all.map tag

theorem mem_all (ty : NumericType) : ty ∈ all := by
  cases ty <;> decide

theorem ofTag_eq_ok_iff {t : String} {ty : NumericType} : ofTag t = .ok ty ↔ t = ty.tag := by
  constructor
  · intro h
    rw [ofTag] at h
    split at h
    · rename_i hfound
      cases h
      exact tag_of_find? hfound
    · cases h
  · rintro rfl
    cases ty <;> rfl

theorem ofTag_eq_error_iff {t : String} {u : UnknownTag} :
    ofTag t = .error u ↔ t ∉ tags ∧ u = ⟨.numericType, t⟩ := by
  rw [ofTag, tags, ← find?_tag_eq_none_iff]
  split
  · rename_i hfound
    simp [hfound]
  · rename_i hnone
    rw [Except.error.injEq, eq_comm]
    simp only [hnone, true_and]

theorem tag_injective : Function.Injective tag := by
  intro ty ty' h
  have hty := ofTag_eq_ok_iff.2 h
  rw [ofTag_eq_ok_iff.2 rfl] at hty
  cases hty
  rfl

theorem symbol_injective : Function.Injective symbol :=
  injective_of_find? all fun ty => by cases ty <;> rfl

theorem ofNat?_eq_some_iff {n : Nat} {ty : NumericType} : ofNat? n = some ty ↔ n = ty.toNat := by
  constructor
  · intro h
    obtain ⟨hn, -⟩ := List.getElem?_eq_some_iff.1 h
    have hn : n < 6 := hn
    revert h ty
    revert n
    decide +kernel
  · rintro rfl
    cases ty <;> rfl

end NumericType

end OpcodeTables
