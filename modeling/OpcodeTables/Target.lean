import OpcodeTables.Path

/-!
# Output formats

The formats in which tables are written, and the file extensions that imply them.
-/

namespace OpcodeTables

inductive Target where
  | cpp
  | rust
  | json
  | bincode
deriving DecidableEq

namespace Target

def all : List Target :=
  [.cpp, .rust, .json, .bincode]

def name : Target → String
  | .cpp => "cpp"
  | .rust => "rust"
  | .json => "json"
  | .bincode => "bincode"

def ofName? (s : String) : Option Target :=
  all.find? (·.name = s)

/-- Whether the output is a text. -/
def isText : Target → Bool
  | .bincode => false
  | _ => true

def extensions : Target → List String
  | .cpp => ["hpp", "h", "hh"]
  | .rust => ["rs"]
  | .json => ["json"]
  | .bincode => ["bin"]

/-- The format that the extension of an output path implies. -/
def ofPath? (p : String) : Option Target :=
  match Path.extension? p with
  | none => none
  | some e => all.find? (e ∈ ·.extensions)

end Target

end OpcodeTables
