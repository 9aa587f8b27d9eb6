import Danmaku.Demo
import Danmaku.Log.Lines

/-! The command line: `danmaku [settings.json] [program.json]` plays the demo and writes its log to
standard error. The variable `DANMAKU_LOG` holds the filter of the log. -/

namespace Danmaku.Main

/-- Why a file could not be read. -/
def reason : IO.Error → String
  | .noFileOrDirectory _ code details | .permissionDenied _ code details
  | .inappropriateType _ code details => s!"{details} (os error {code})"
  | e => toString e

def readFile (path : String) : IO FileText := do
  try return { path, text := .ok (← IO.FS.readFile path) }
  catch e => return { path, text := .error (reason e) }

end Danmaku.Main

open Danmaku in
def main (args : List String) : IO Unit := do
  let settings ← (args[0]?).mapM Main.readFile
  let program ← (args[1]?).mapM Main.readFile
  let spec := (← IO.getEnv "DANMAKU_LOG").getD "info"
  for line in Log.write "danmaku" spec (Demo.run settings program) do
    IO.eprintln line
