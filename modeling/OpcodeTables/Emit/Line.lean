/-!
# Lines of generated sources

A line is a text with its depth of indentation; a level takes four spaces.
-/

namespace OpcodeTables.Emit

structure Line where
  depth : Nat
  text : String
deriving DecidableEq

def notice : String :=
  "THIS FILE IS GENERATED BY 'uvm-encgen' DO NOT MODIFY!"

def Line.chars (l : Line) : List Char :=
  List.replicate (4 * l.depth) ' ' ++ l.text.toList ++ ['\n']

/-- The text of lines, each one ended. -/
def render (lines : List Line) : String :=
  String.ofList (lines.flatMap Line.chars)

end OpcodeTables.Emit
