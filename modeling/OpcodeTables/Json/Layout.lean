import OpcodeTables.Json.Quoted

/-!
# Layout of JSON values

A value written over several lines: two spaces of indentation for each list or map around a line, and every part on a
line of its own.
-/

namespace OpcodeTables.Json

/-- The text of a value inside `depth` lists and maps. -/
def Layout : Type :=
  (depth : Nat) → List Char

namespace Layout

def natural (n : Nat) : Layout :=
  fun _ => (Text.decimal n).toList

def text (s : String) : Layout :=
  fun _ => writtenText s

/-- The start of a line. -/
def newline (depth : Nat) : List Char :=
  '\n' :: List.replicate (2 * depth) ' '

/-- Parts between brackets. -/
def block (opening closing : Char) (parts : List Layout) : Layout :=
  fun depth =>
    if parts.isEmpty then [opening, closing]
    else
      opening :: List.intercalate [','] (parts.map fun p => newline (depth + 1) ++ p (depth + 1)) ++ newline depth ++
        [closing]

def list (parts : List Layout) : Layout :=
  block '[' ']' parts

/-- A map with the given keys, in this order. -/
def map (members : List (String × Layout)) : Layout :=
  block '{' '}' (members.map fun m depth => writtenText m.1 ++ [':', ' '] ++ m.2 depth)

/-- A value as a document of its own, which ends its last line. -/
def document (v : Layout) : List Char :=
  v 0 ++ ['\n']

end Layout

end OpcodeTables.Json
