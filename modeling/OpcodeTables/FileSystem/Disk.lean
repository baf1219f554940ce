import OpcodeTables.FileSystem.Script
import OpcodeTables.Path

/-!
# Disks

A tree of directories, files and symbolic links, as a list of places with what is there. The root is always there. A
path is walked piece by piece from the root or the current directory, and links are followed on the way.
-/

namespace OpcodeTables

namespace Disk

/-- A place: the names of the directories down from the root, and that of the place itself. -/
abbrev Location : Type :=
  List String

inductive Node where
  | file (bytes : List UInt8)
  | directory
  | link (path : String)
deriving DecidableEq

end Disk

structure Disk where
  here : Disk.Location
  nodes : List (Disk.Location × Disk.Node)
deriving DecidableEq

namespace Disk

/-- A disk with nothing but an empty current directory. -/
def fresh : Disk :=
  { here := ["work", "run"], nodes := [(["work"], .directory), (["work", "run"], .directory)] }

def node? (d : Disk) (l : Location) : Option Node :=
  if l = [] then some .directory else d.nodes.lookup l

/-- The nodes with `n` at `l`: in the place of what was there, and at the end otherwise. -/
def put (l : Location) (n : Node) : List (Location × Node) → List (Location × Node)
  | [] => [(l, n)]
  | (l', n') :: ns => if l' = l then (l, n) :: ns else (l', n') :: put l n ns

def set (d : Disk) (l : Location) (n : Node) : Disk :=
  { d with nodes := put l n d.nodes }

def erase (d : Disk) (l : Location) : Disk :=
  { d with nodes := d.nodes.filter (·.1 ≠ l) }

/-! ### Walking -/

/-- The names between slashes, and an empty one when a slash ends the path. -/
def pieces (p : String) : List String :=
  let ss := (Path.segments p.toList).map String.ofList
  ss.filter (· ≠ "") ++ if ss.getLast? = some "" then [""] else []

def isTooLong (piece : String) : Bool :=
  255 < piece.utf8ByteSize

/-- Where a walk ends. -/
inductive Found where
  | missing (l : Location)
  | file (l : Location) (bytes : List UInt8)
  | directory (l : Location)
deriving DecidableEq

/-- Walks down from the directory `l`; `follow` goes on from where a link was met. What is to be created must not have a
slash after its name. -/
def descend (d : Disk) (creating : Bool) (follow : Location → List String → Except Errno Found) :
    (l : Location) → List String → Except Errno Found
  | l, [] => .ok (.directory l)
  | l, p :: ps =>
    if p = "" ∨ p = "." then d.descend creating follow l ps
    else if p = ".." then d.descend creating follow l.dropLast ps
    else if creating ∧ ps = [""] then .error .isDirectory
    else if isTooLong p then .error .nameTooLong
    else
      match d.node? (l ++ [p]) with
      | none => if ps = [] then .ok (.missing (l ++ [p])) else .error .noEntry
      | some (.file bytes) => if ps = [] then .ok (.file (l ++ [p]) bytes) else .error .notDirectory
      | some .directory => d.descend creating follow (l ++ [p]) ps
      | some (.link path) => follow (if Path.isAbsolute path then [] else l) (pieces path ++ ps)

/-- Walks down through at most `links` links. -/
def walk (d : Disk) (creating : Bool) : (links : Nat) → Location → List String → Except Errno Found
  | 0 => d.descend creating fun _ _ => .error .linkLoop
  | links + 1 => d.descend creating (d.walk creating links)

/-- A walk follows no more links than these. -/
def maxLinks : Nat := 40

/-- Checks the length of a path. -/
def checkPath (p : String) : Except Errno Unit :=
  if p = "" then .error .noEntry else if 4096 ≤ p.utf8ByteSize then .error .nameTooLong else .ok ()

def start (d : Disk) (p : String) : Location :=
  if Path.isAbsolute p then [] else d.here

/-- What a path leads to. -/
def find (d : Disk) (p : String) (creating : Bool) : Except Errno Found := do
  checkPath p
  d.walk creating maxLinks (d.start p) (pieces p)

/-- The last name of a path, in its directory. -/
inductive Entry where
  | dots
  | name (l : Location) (hasSlash : Bool)
deriving DecidableEq

/-- The entry that a path names; its last name is not looked up. -/
def entry (d : Disk) (p : String) : Except Errno Entry := do
  checkPath p
  let ps := (pieces p).filter (· ≠ "")
  match ← d.walk false maxLinks (d.start p) (ps.dropLast ++ [""]) with
  | .directory l =>
    match ps.getLast? with
    | none | some "." | some ".." => return .dots
    | some s =>
      if isTooLong s then throw .nameTooLong
      return .name (l ++ [s]) (p.toList.getLast? = some '/')
  | _ => throw .notDirectory

/-! ### Requests -/

def realPath (d : Disk) (p : String) : Except Errno String := do
  match ← d.find p false with
  | .missing _ => throw .noEntry
  | .file l _ | .directory l => return "/" ++ "/".intercalate l

def read (d : Disk) (p : String) : Except Errno (List UInt8) := do
  match ← d.find p false with
  | .missing _ => throw .noEntry
  | .directory _ => throw .isDirectory
  | .file _ bytes => return bytes

/-- Creates an empty file, or empties one. -/
def create (d : Disk) (p : String) : Except Errno Disk := do
  match ← d.find p true with
  | .missing l | .file l _ => return d.set l (.file [])
  | .directory _ => throw .isDirectory

/-- Puts bytes into a file that is there. -/
def write (d : Disk) (p : String) (bytes : List UInt8) : Except Errno Disk := do
  match ← d.find p false with
  | .missing _ => throw .noEntry
  | .directory _ => throw .isDirectory
  | .file l _ => return d.set l (.file bytes)

/-- Moves a file or link to another name, whose file or link it replaces. -/
def rename (d : Disk) (source target : String) : Except Errno Disk := do
  match ← d.entry source, ← d.entry target with
  | .name l slash, .name l' slash' =>
    match d.node? l with
    | none => throw .noEntry
    | some .directory => throw .invalid
    | some n =>
      if slash ∨ slash' then throw .notDirectory
      else if d.node? l' = some .directory then throw .isDirectory
      else if l = l' then return d
      else return (d.erase l).set l' n
  | _, _ => throw .busy

def remove (d : Disk) (p : String) : Except Errno Disk := do
  match ← d.entry p with
  | .dots => throw .isDirectory
  | .name l slash =>
    match d.node? l with
    | none => throw .noEntry
    | some .directory => throw .isDirectory
    | some _ => if slash then throw .notDirectory else return d.erase l

def change (d : Disk) : Change → Except Errno Disk
  | .create p => d.create p
  | .write p bytes => d.write p bytes
  | .sync p => do
    let _ ← d.read p
    return d
  | .rename source target => d.rename source target
  | .remove p => d.remove p

/-- A disk as a machine: a change that fails leaves it as it was. -/
def machine : Machine Disk
  | .realPath p, d => (d.realPath p, d)
  | .read p, d => (d.read p, d)
  | .change c, d =>
    match d.change c with
    | .error e => (.error e, d)
    | .ok d' => (.ok (), d')

/-! ### Directories and links -/

def makeDirectory (d : Disk) (p : String) : Except Errno Disk := do
  match ← d.entry p with
  | .dots => throw .alreadyExists
  | .name l _ => if (d.node? l).isSome then throw .alreadyExists else return d.set l .directory

def isDirectory (d : Disk) (p : String) : Bool :=
  match d.find p false with
  | .ok (.directory _) => true
  | _ => false

/-- Makes the first of the directories. If it lies in one that is missing, the others are made first, each of which lies
above the one before it. What was made stays when a later one fails. -/
def makeDirectories (d : Disk) : List String → Except Errno Unit × Disk
  | [] => (.ok (), d)
  | p :: above =>
    match d.makeDirectory p with
    | .ok d' => (.ok (), d')
    | .error .noEntry =>
      match d.makeDirectories above with
      | (.error e, d') => (.error e, d')
      | (.ok (), d') =>
        match d'.makeDirectory p with
        | .ok d'' => (.ok (), d'')
        | .error e => (if d'.isDirectory p then .ok () else .error e, d')
    | .error e => (if d.isDirectory p then .ok () else .error e, d)

/-- Makes a directory together with those above it. -/
def makePath (d : Disk) (p : String) : Except Errno Unit × Disk :=
  d.makeDirectories (if p = "" then [] else p :: Path.parents p)

def makeLink (d : Disk) (p target : String) : Except Errno Disk := do
  checkPath target
  match ← d.entry p with
  | .dots => throw .alreadyExists
  | .name l slash =>
    if (d.node? l).isSome then throw .alreadyExists
    else if slash then throw .noEntry
    else return d.set l (.link target)

/-- Everything below the current directory. A directory is followed by what it holds, in the order of the names. -/
def listing (d : Disk) : List String :=
  let below := d.nodes.filterMap fun (l, n) =>
    if d.here.isPrefixOf l ∧ l ≠ d.here then some (l.drop d.here.length, n) else none
  (below.mergeSort fun a b => (compare a.1 b.1).isLE).map fun (l, n) =>
    "/".intercalate l ++ if n = .directory then "/" else ""

end Disk

end OpcodeTables
