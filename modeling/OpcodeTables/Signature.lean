import OpcodeTables.Tables

/-!
# Operand signatures

For each instruction a tree over the kinds of operands: the node that a list of kinds leads to holds the position of the
form with these operands. Of forms with the same operands the last one is found; it shadows the others.
-/

namespace OpcodeTables

namespace Signature

/-- A node: the position of the form that ends here, and the next nodes in the order in which their kinds came up. -/
inductive Node where
  | mk (form : Option Nat) (children : List (OperandKind × Node))

namespace Node

def empty : Node :=
  ⟨none, []⟩

def form : Node → Option Nat
  | mk form _ => form

def children : Node → List (OperandKind × Node)
  | mk _ children => children

def child? (n : Node) (k : OperandKind) : Option Node :=
  n.children.lookup k

/-- The children with `c` as that of kind `k`: in its place if there is one, and at the end otherwise. -/
def setChild (k : OperandKind) (c : Node) : List (OperandKind × Node) → List (OperandKind × Node)
  | [] => [(k, c)]
  | (k', c') :: cs => if k' = k then (k, c) :: cs else (k', c') :: setChild k c cs

/-- The tree in which the kinds lead to the position `j`. -/
def insert (n : Node) : List OperandKind → (j : Nat) → Node
  | [], j => ⟨some j, n.children⟩
  | k :: ks, j => ⟨n.form, setChild k (((n.child? k).getD empty).insert ks j) n.children⟩

/-- The node that kinds lead to. -/
def walk? (n : Node) : List OperandKind → Option Node
  | [] => some n
  | k :: ks =>
    match n.child? k with
    | none => none
    | some c => c.walk? ks

/-- The position of the form that kinds lead to. -/
def find? (n : Node) (ks : List OperandKind) : Option Nat :=
  (n.walk? ks).bind form

/-- The tree with the forms from position `j` on, and the number of those before them that they shadow. -/
def insertAll (n : Node) (j : Nat) : List Tables.Form → Node × Nat
  | [] => (n, 0)
  | f :: fs =>
    let shadowed := if (n.find? f.params).isSome then 1 else 0
    let t := (n.insert f.params j).insertAll (j + 1) fs
    (t.1, shadowed + t.2)

end Node

end Signature

/-- The tables together with a signature tree for each instruction. -/
structure SignatureTrees where
  tables : Tables
  roots : List Signature.Node
  shadowed : Nat

namespace SignatureTrees

open Signature (Node)

def ofTables (tables : Tables) : SignatureTrees :=
  let trees := tables.instructions.map (Node.empty.insertAll 0)
  { tables, roots := trees.map (·.1), shadowed := (trees.map (·.2)).foldl (· + ·) 0 }

def walk? (t : SignatureTrees) (i : Nat) (ks : List OperandKind) : Option Node :=
  t.roots[i]?.bind (·.walk? ks)

/-- The form of an instruction for operands of the given kinds. -/
def resolve (t : SignatureTrees) (i : Nat) (ks : List OperandKind) : Option Tables.Form :=
  ((t.walk? i ks).bind (·.form)).bind (t.tables.form? i)

def resolveByName (t : SignatureTrees) (name : String) (ks : List OperandKind) : Option Tables.Form :=
  (t.tables.indexOf? name).bind fun i => t.resolve i ks

/-- The kinds that may follow the given ones. -/
def expectedAfter (t : SignatureTrees) (i : Nat) (ks : List OperandKind) : List OperandKind :=
  match t.walk? i ks with
  | none => []
  | some n => n.children.map (·.1)

end SignatureTrees

end OpcodeTables
