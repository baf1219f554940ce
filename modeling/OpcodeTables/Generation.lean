import OpcodeTables.Config
import OpcodeTables.Sha256

/-!
# Generation

A run reads the input, converts it and brings the output up to date. An output that holds the right bytes is left alone;
otherwise a new file is written beside it and takes its name, so that the output is at no time half written.
-/

namespace OpcodeTables

/-- What a run did to its output. -/
inductive Outcome where
  | written
  | unchanged
  | stale
deriving DecidableEq

namespace Generation

inductive Fault where
  | config (fault : Config.Fault)
  | conversion (fault : Conversion.Fault)
  | io (e : Errno)
deriving DecidableEq

def Fault.message : Fault → String
  | .config fault => "Invalid configuration: " ++ fault.message
  | .conversion fault => fault.message
  | .io e => "I/O error: " ++ e.message

/-- What stands behind a fault, when that has a message of its own. -/
def Fault.cause? : Fault → Option String
  | .config fault => some fault.message
  | .conversion fault => fault.cause?
  | .io e => some e.message

/-- Whether a file holds the given bytes, as far as their digests tell. -/
def isUpToDate (path : String) (bytes : List UInt8) : Script (Except Errno Bool) :=
  .ask (.read path) fun
  | .ok s => .done (.ok (Sha256.digest s = Sha256.digest bytes))
  | .error .noEntry => .done (.ok false)
  | .error e => .done (.error e)

/-- The path of the file that becomes `path`; the mark tells runs apart. -/
def temporaryPath (mark path : String) : String :=
  Path.sibling path ((Path.fileName? path).getD "" ++ "." ++ mark ++ ".tmp")

/-- Puts bytes in the place of a file. What was begun is removed when a step fails. -/
def replace (mark path : String) (bytes : List UInt8) : Script (Except Errno Unit) :=
  let temporary := temporaryPath mark path
  (Script.changes [.create temporary, .write temporary bytes, .sync temporary, .rename temporary path]).bind fun
  | .ok () => .done (.ok ())
  | .error e => .ask (.change (.remove temporary)) fun _ => .done (.error e)

/-- Brings an output up to date, unless it is only to be checked. -/
def update (mark : String) (c : Config) (bytes : List UInt8) : Script (Except Fault Outcome) :=
  (isUpToDate c.output bytes).bind fun
  | .error e => .done (.error (.io e))
  | .ok true => .done (.ok .unchanged)
  | .ok false =>
    if c.check then .done (.ok .stale)
    else
      (replace mark c.output bytes).map fun
      | .error e => .error (.io e)
      | .ok () => .ok .written

def run (mark : String) (c : Config) : Script (Except Fault Outcome) :=
  c.fault?.bind fun
  | some e => .done (.error (.config e))
  | none =>
    .ask (.read c.input) fun
    | .error e => .done (.error (.io e))
    | .ok s =>
      match c.toConversion.run s with
      | .error e => .done (.error (.conversion e))
      | .ok bytes => update mark c bytes

end Generation

end OpcodeTables
