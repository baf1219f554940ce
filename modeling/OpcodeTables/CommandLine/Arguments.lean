import OpcodeTables.Target

/-!
# Arguments

The arguments of a command line are read from left to right, and the first one that is wrong or asks for help or the
version ends the reading. A setting takes a value, in the same argument or as the next one; a flag takes none. Only the
verbosity may be repeated.
-/

namespace OpcodeTables.CommandLine

/-- What a command line asks for. -/
structure Arguments where
  input : String
  output : String
  target : Option Target
  namespaceName : Option String
  allowShadowed : Bool
  check : Bool
deriving DecidableEq

inductive Setting where
  | input
  | output
  | target
  | namespaceName
deriving DecidableEq

inductive Flag where
  | allowShadowed
  | check
  | verbose
  | help
  | version
deriving DecidableEq

inductive Opt where
  | setting (s : Setting)
  | flag (f : Flag)
deriving DecidableEq

/-- Why the reading ends without arguments for a run. -/
inductive Stop where
  | wrongUsage
  | help
  | version
deriving DecidableEq

def Opt.ofName? : String → Option Opt
  | "output" => some (.setting .output)
  | "target" => some (.setting .target)
  | "namespace" => some (.setting .namespaceName)
  | "allow-shadowed-variants" => some (.flag .allowShadowed)
  | "check" => some (.flag .check)
  | "verbose" => some (.flag .verbose)
  | "help" => some (.flag .help)
  | "version" => some (.flag .version)
  | _ => none

def Opt.ofLetter? : Char → Option Opt
  | 'o' => some (.setting .output)
  | 't' => some (.setting .target)
  | 'v' => some (.flag .verbose)
  | 'h' => some (.flag .help)
  | 'V' => some (.flag .version)
  | _ => none

/-- What was read so far. -/
structure Given where
  input : Option String := none
  output : Option String := none
  target : Option Target := none
  namespaceName : Option String := none
  allowShadowed : Bool := false
  check : Bool := false
deriving DecidableEq

namespace Given

/-- Gives a setting its value, which must be a good one and the first one. Paths are not empty. -/
def set (g : Given) (s : Setting) (value : String) : Except Stop Given :=
  match s with
  | .input => if g.input.isSome ∨ value = "" then .error .wrongUsage else .ok { g with input := value }
  | .output => if g.output.isSome ∨ value = "" then .error .wrongUsage else .ok { g with output := value }
  | .target =>
    match g.target, Target.ofName? value with
    | none, some target => .ok { g with target := some target }
    | _, _ => .error .wrongUsage
  | .namespaceName =>
    if g.namespaceName.isSome then .error .wrongUsage else .ok { g with namespaceName := value }

def raise (g : Given) : Flag → Except Stop Given
  | .allowShadowed => if g.allowShadowed then .error .wrongUsage else .ok { g with allowShadowed := true }
  | .check => if g.check then .error .wrongUsage else .ok { g with check := true }
  | .verbose => .ok g
  | .help => .error .help
  | .version => .error .version

/-- Reads the letters of options after a dash, and the setting whose value is to come in the next argument. -/
def letters (g : Given) : List Char → Except Stop (Given × Option Setting)
  | [] => .ok (g, none)
  | c :: cs =>
    match Opt.ofLetter? c with
    | none => .error .wrongUsage
    | some (.flag f) =>
      match g.raise f with
      | .error e => .error e
      | .ok g => g.letters cs
    | some (.setting s) =>
      match cs with
      | [] => .ok (g, some s)
      | '=' :: value => (g.set s (String.ofList value)).map (·, none)
      | value => (g.set s (String.ofList value)).map (·, none)

/-- Reads an option after two dashes, and the setting whose value is to come in the next argument. -/
def word (g : Given) (cs : List Char) : Except Stop (Given × Option Setting) :=
  let name := cs.takeWhile (· ≠ '=')
  match Opt.ofName? (String.ofList name), cs.drop name.length with
  | some (.flag f), [] => (g.raise f).map (·, none)
  | some (.setting s), [] => .ok (g, some s)
  | some (.setting s), _ :: value => (g.set s (String.ofList value)).map (·, none)
  | _, _ => .error .wrongUsage

/-- Reads an argument that is no value of a setting before it. -/
def argument (g : Given) (a : String) : Except Stop (Given × Option Setting) :=
  match a.toList with
  | '-' :: '-' :: cs => g.word cs
  | '-' :: c :: cs => g.letters (c :: cs)
  | _ => (g.set .input a).map (·, none)

/-- Reads arguments that are inputs whatever they look like. -/
def inputs (g : Given) : List String → Except Stop Given
  | [] => .ok g
  | a :: as =>
    match g.set .input a with
    | .error e => .error e
    | .ok g => g.inputs as

/-- Whether an argument looks like an option. -/
def isOption (a : String) : Bool :=
  match a.toList with
  | '-' :: _ :: _ => true
  | _ => false

/-- Reads arguments, the first one being the value of the setting `awaiting`. -/
def arguments (g : Given) (awaiting : Option Setting) : List String → Except Stop Given
  | [] => if awaiting.isSome then .error .wrongUsage else .ok g
  | a :: as =>
    match awaiting with
    | some s =>
      if isOption a then .error .wrongUsage
      else
        match g.set s a with
        | .error e => .error e
        | .ok g => g.arguments none as
    | none =>
      if a = "--" then g.inputs as
      else
        match g.argument a with
        | .error e => .error e
        | .ok (g, awaiting) => g.arguments awaiting as

end Given

/-- The arguments for a run, of which the input and the output must be given. -/
def Arguments.read (as : List String) : Except Stop Arguments :=
  match Given.arguments {} none as with
  | .error e => .error e
  | .ok { input := some input, output := some output, target, namespaceName, allowShadowed, check } =>
    .ok { input, output, target, namespaceName, allowShadowed, check }
  | .ok _ => .error .wrongUsage

end OpcodeTables.CommandLine
