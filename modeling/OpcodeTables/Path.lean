/-!
# Paths

A path is a text; its components are what lies between slashes. Repeated slashes, a slash at the end and dots other than
one in front make no difference.
-/

namespace OpcodeTables.Path

inductive Component where
  | root
  | here
  | up
  | name (s : String)
deriving DecidableEq

/-- The texts between slashes. -/
def segments : List Char → List (List Char)
  | [] => [[]]
  | '/' :: cs => [] :: segments cs
  | c :: cs =>
    match segments cs with
    | [] => [[c]]
    | s :: ss => (c :: s) :: ss

def isAbsolute (p : String) : Bool :=
  p.toList.head? = some '/'

/-- The components of segments that come after the first one, or after the root. -/
def componentsOf (ss : List (List Char)) : List Component :=
  ss.filterMap fun s =>
    if s = [] ∨ s = ['.'] then none
    else if s = ['.', '.'] then some .up
    else some (.name (String.ofList s))

def components (p : String) : List Component :=
  let ss := segments p.toList
  if isAbsolute p then .root :: componentsOf ss
  else if ss.head? = some ['.'] then .here :: componentsOf ss
  else componentsOf ss

/-- The last component, if it is a name. -/
def fileName? (p : String) : Option String :=
  match (components p).getLast? with
  | some (.name s) => some s
  | _ => none

/-- What follows the last dot of the file name, unless that dot is its first character. -/
def extension? (p : String) : Option String :=
  match fileName? p with
  | none => none
  | some s =>
    let after := (s.toList.reverse.takeWhile (· ≠ '.')).reverse
    if after.length + 1 < s.toList.length then some (String.ofList after) else none

/-! ### Above a path -/

/-- Segments, the last one first, without the empty ones and dots at the end of the path. The first segment stays. -/
def trim : List (List Char) → List (List Char)
  | s :: s' :: ss => if s = [] ∨ s = ['.'] then trim (s' :: ss) else s :: s' :: ss
  | ss => ss

/-- The path of segments, the last one first. An empty segment alone is what stands before the root's slash. -/
def join : List (List Char) → String
  | [[]] => "/"
  | ss => String.ofList (List.intercalate ['/'] ss.reverse)

/-- The paths that end with one of the segments, the last one first. -/
def endings : List (List Char) → List String
  | [] => []
  | s :: s' :: ss =>
    if s = [] ∨ s = ['.'] then endings (s' :: ss) else join (s :: s' :: ss) :: endings (s' :: ss)
  | [s] => [join [s]]

/-- The paths above a path, the nearest one first, as far as they are written in it. -/
def parents (p : String) : List String :=
  match trim (segments p.toList).reverse with
  | [] => []
  | _ :: ss => endings ss

/-- The path of a file beside that of `p`; if `p` names no file, one inside it. -/
def sibling (p name : String) : String :=
  let directory := if (fileName? p).isSome then (parents p).headD "" else p
  if directory = "" ∨ directory.toList.getLast? = some '/' then directory ++ name else directory ++ "/" ++ name

end OpcodeTables.Path
