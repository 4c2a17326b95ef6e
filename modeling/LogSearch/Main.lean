import LogSearch.Regex.Program
import LogSearch.Shell.Run
import Std.Time.DateTime.Timestamp

/-!
# The program

Reads the clock and the files that the command line needs, runs it, and prints the outcome.
-/

namespace LogSearch.Shell

/-- Why a file could not be read. -/
def fileFault : IO.Error → FileFault
  | .inappropriateType _ code _ => if code = 20 then .notDirectory else .isDirectory
  | .permissionDenied .. => .denied
  | _ => .notFound

/-- The bytes of a file. -/
def readFile (path : String) : IO (Except FileFault (List UInt8)) := do
  try
    return .ok (← IO.FS.readBinFile path).toList
  catch e =>
    return .error (fileFault e)

/-- The files under some paths; nothing is found under all others. -/
def readFiles (paths : List String) : IO Files := do
  let found ← paths.mapM fun path => do return (path, ← readFile path)
  return fun path => (found.lookup path).getD (.error .notFound)

/-- Waits for what never happens. -/
def waitForever : IO Unit := do
  repeat IO.sleep 60000

end LogSearch.Shell

attribute [local instance] LogSearch.Regex.standard LogSearch.Machine.stopping

open LogSearch.Shell in
/-- Runs a command line. -/
def main (words : List String) : IO UInt32 := do
  let now := (← Std.Time.Timestamp.now).toMillisecondsSinceUnixEpoch
  let early ← readFiles (configFile? words).toList
  let files ← readFiles (filesNeeded early words)
  let outcome := run now.val files words
  for note in outcome.notes do
    IO.eprintln note
  IO.print outcome.output
  if let some failure := outcome.failure then
    IO.eprintln ("Error: " ++ failure.text)
  if outcome.code.isNone then waitForever
  return (outcome.code.getD 0).toUInt32
