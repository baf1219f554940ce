import OpcodeTables.Conversion
import OpcodeTables.FileSystem.Script

/-!
# Configurations

What a run needs: a conversion, the paths of its input and output, and whether the output is only to be checked. A valid
configuration has an identifier for its namespace, and an output path that names a file other than the input.
-/

namespace OpcodeTables

structure Config extends Conversion where
  input : String
  output : String
  check : Bool := false
deriving DecidableEq

namespace Config

inductive Fault where
  | unknownTarget
  | invalidNamespace
  | missingOutputName
  | outputOverwritesInput
deriving DecidableEq

def Fault.message : Fault → String
  | .unknownTarget => "cannot infer target from output extension (use .hpp, .h, .rs, .json or .bin)"
  | .invalidNamespace => "namespace must be an identifier"
  | .missingOutputName => "output path must name a file"
  | .outputOverwritesInput => "output path must differ from the input path"

/-- Whether two paths are equal or lead to the same place. -/
def isSamePlace (p q : String) : Script Bool :=
  if Path.components p = Path.components q then .done true
  else
    .ask (.realPath p) fun
    | .error _ => .done false
    | .ok p' =>
      .ask (.realPath q) fun
      | .error _ => .done false
      | .ok q' => .done (p' = q')

/-- The first fault of a configuration: its namespace, then the name of its output, then the place of its input. -/
def fault? (c : Config) : Script (Option Fault) :=
  if Symbol.isSymbol c.namespaceName = false then .done (some .invalidNamespace)
  else if Path.fileName? c.output = none then .done (some .missingOutputName)
  else (isSamePlace c.input c.output).map fun same => if same then some .outputOverwritesInput else none

/-- The configuration, if it is valid. -/
def validate (c : Config) : Script (Except Fault Config) :=
  c.fault?.map fun
  | some e => .error e
  | none => .ok c

/-- A configuration for two paths. The format is implied by the output path unless it is given. -/
def ofPaths (input output : String) (target : Option Target) : Script (Except Fault Config) :=
  match target.or (Target.ofPath? output) with
  | none => .done (.error .unknownTarget)
  | some target => validate { target, input, output }

def withNamespace (c : Config) (name : String) : Script (Except Fault Config) :=
  validate { c with namespaceName := name }

/-- A configuration on one line. -/
def text (c : Config) : String :=
  "GenConfig \x7b input: " ++ c.input ++ ", output: " ++ c.output ++ ", target: " ++ c.target.name ++ ", namespace: " ++
    c.namespaceName ++ ", variants: " ++ c.policy.name ++ (if c.check then ", check" else "") ++ " \x7d"

end Config

end OpcodeTables
