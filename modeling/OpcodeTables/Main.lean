import OpcodeTables.CommandLine

/-!
# Main

Runs the command line over the real file system.
-/

namespace OpcodeTables

/-- A failure by its number, which may come with a negative sign. -/
def Errno.ofError : IO.Error → Errno
  | .alreadyExists _ c _ | .otherError c _ | .resourceBusy c _ | .resourceVanished c _ | .unsupportedOperation c _
  | .hardwareFault c _ | .unsatisfiedConstraints c _ | .illegalOperation c _ | .protocolError c _ | .timeExpired c _
  | .interrupted _ c _ | .noFileOrDirectory _ c _ | .invalidArgument _ c _ | .permissionDenied _ c _
  | .resourceExhausted _ c _ | .inappropriateType _ c _ | .noSuchThing _ c _ => ofCode c.toInt32.toInt.natAbs
  | .unexpectedEof | .userError _ => .other 0

def attempt {α : Type} (x : IO α) : IO (Except Errno α) := do
  try
    return .ok (← x)
  catch e =>
    return .error (.ofError e)

def Change.perform : Change → IO Unit
  | .create p => do
    let _ ← IO.FS.Handle.mk p .write
  | .write p bytes => IO.FS.writeBinFile p (.mk bytes.toArray)
  | .sync p => do
    (← IO.FS.Handle.mk p .append).flush
  | .rename source target => IO.FS.rename source target
  | .remove p => IO.FS.removeFile p

def Request.perform : (r : Request) → IO (Except Errno r.Answer)
  | .realPath p => attempt do
    return (← IO.FS.realPath p).toString
  | .read p => attempt do
    return (← IO.FS.readBinFile p).toList
  | .change c => attempt c.perform

def Script.perform {α : Type} : Script α → IO α
  | .done a => return a
  | .ask r next => do
    (next (← r.perform)).perform

end OpcodeTables

/-- Runs the command line and ends with its exit code. -/
def main (args : List String) : IO UInt32 := do
  let mark := OpcodeTables.Text.decimal (← IO.monoNanosNow)
  let result ← (OpcodeTables.CommandLine.run mark args).perform
  IO.print result.stdout
  IO.eprint result.stderr
  return .ofNat result.code
