import OpcodeTables.CommandLine.Arguments
import OpcodeTables.Generation

/-!
# Command line

A command line makes a configuration, runs it and ends with an exit code: 0 when the output is up to date, 1 when it is
not, and 2 when the arguments are wrong. A failure is told with everything that stands behind it.
-/

namespace OpcodeTables.CommandLine

/-- What a command leaves behind. -/
structure Result where
  code : Nat
  stdout : String := ""
  stderr : String := ""
deriving DecidableEq

def version : String :=
  "uvm-encgen 0.1.0\n"

def usage : String :=
  "Usage: uvm-encgen [OPTIONS] --output <OUTPUT> <INPUT>\n"

def help : String :=
  "Generate the assembler's encoding tables from an instruction-set description\n\n" ++ usage ++
  "\nArguments:\n" ++
  "  <INPUT>  JSON instruction-set description\n" ++
  "\nOptions:\n" ++
  "  -o, --output <OUTPUT>          Output file\n" ++
  "  -t, --target <TARGET>          Output format (inferred from the output extension when omitted) " ++
    "[possible values: " ++ ", ".intercalate (Target.all.map Target.name) ++ "]\n" ++
  "      --namespace <NAMESPACE>    Namespace wrapping the C++ instruction tables\n" ++
  "      --allow-shadowed-variants  Keep repeated type variants (the last one wins) instead of failing\n" ++
  "      --check                    Fail if the output is out of date instead of rewriting it\n" ++
  "  -v, --verbose...               Increase logging verbosity\n" ++
  "  -h, --help                     Print help\n" ++
  "  -V, --version                  Print version\n"

/-- A text whose further lines are indented. -/
def indented (depth : Nat) (s : String) : String :=
  String.ofList (s.toList.flatMap fun c => if c = '\n' then '\n' :: List.replicate depth ' ' else [c])

/-- What a failure says: its context, and what stands behind it, which is numbered if that is more than one thing. -/
def failure (context : String) (causes : List String) : String :=
  let behind := match causes with
    | [] => ""
    | [c] => "\n\nCaused by:\n    " ++ indented 4 c
    | cs => "\n\nCaused by:" ++ String.join (cs.zipIdx.map fun (c, n) =>
        "\n    " ++ Text.decimal n ++ ": " ++ indented 7 c)
  "Error: " ++ context ++ behind ++ "\n"

/-- The configuration that arguments describe. -/
def Arguments.config (a : Arguments) : Script (Except Config.Fault Config) :=
  (Config.ofPaths a.input a.output a.target).bind fun
  | .error e => .done (.error e)
  | .ok c =>
    match a.namespaceName with
    | none => .done (.ok c)
    | some name => c.withNamespace name

/-- The options that need no validation. -/
def Arguments.adjust (a : Arguments) (c : Config) : Config :=
  { c with policy := if a.allowShadowed then .lastWins else c.policy, check := a.check }

/-- The end of a run. -/
def resultOf (c : Config) : Except Generation.Fault Outcome → Result
  | .error e =>
    { code := 1, stderr := failure ("failed to generate " ++ c.output ++ " from " ++ c.input)
        (e.message :: e.cause?.toList) }
  | .ok .stale => { code := 1, stderr := failure (c.output ++ " is out of date; rerun without --check") [] }
  | .ok _ => { code := 0 }

def Arguments.run (mark : String) (a : Arguments) : Script Result :=
  a.config.bind fun
  | .error e => .done { code := 1, stderr := failure "invalid generator configuration" [e.message] }
  | .ok c =>
    let c := a.adjust c
    (Generation.run mark c).map (resultOf c)

/-- Runs a command line. -/
def run (mark : String) (as : List String) : Script Result :=
  match Arguments.read as with
  | .error .help => .done { code := 0, stdout := help }
  | .error .version => .done { code := 0, stdout := version }
  | .error .wrongUsage => .done { code := 2, stderr := usage }
  | .ok a => a.run mark

end OpcodeTables.CommandLine
