/-!
# Symbols

A symbol is one or more identifiers joined by `::`; an identifier is ASCII.
-/

namespace OpcodeTables.Symbol

def isHead (c : Char) : Bool :=
  c.isAlpha || c = '_'

def isTail (c : Char) : Bool :=
  c.isAlphanum || c = '_'

def isIdentifier : List Char → Bool
  | [] => false
  | c :: cs => isHead c && cs.all isTail

/-- The parts of a text between the occurrences of `::`, which are found from the left. -/
def parts : List Char → List (List Char)
  | [] => [[]]
  | ':' :: ':' :: cs => [] :: parts cs
  | c :: cs =>
    match parts cs with
    | [] => [[c]]
    | p :: ps => (c :: p) :: ps

def isSymbol (s : String) : Bool :=
  (parts s.toList).all isIdentifier

end OpcodeTables.Symbol
