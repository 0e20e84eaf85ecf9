import Famicom.Options.CommandLine
import Famicom.Session

/-!
# The program

Reads the command line and the cartridge image, runs a session and says where it ended.
-/

namespace Famicom

/-- How the program is called. -/
def usage : String :=
  "Usage: famicom [--pal] [--headless] [-s SCALE] [--speed SPEED] [-f FRAMES] " ++
    "[--sample-rate RATE] [ROM]"

/-- Runs a session with the options, and gives the program's exit code. -/
def runSession (o : Options) : IO UInt32 := do
  let image? ← o.rom.mapM fun path ↦ return (← IO.FS.readBinFile path).data
  match Session.start o image? with
  | .error e =>
    IO.eprintln e.report
    return 1
  | .ok c =>
    let c := Session.run o.frames c
    if let some warning := Session.warning? c then IO.eprintln warning
    IO.println (Session.summary c)
    return 0

/-- Runs the program on a command line, and gives its exit code. -/
def runCommandLine (words : List String) : IO UInt32 := do
  match Options.parse words with
  | .error .helpRequested =>
    IO.println usage
    return 0
  | .error e =>
    IO.eprintln s!"error: {e.message}"
    IO.eprintln usage
    return 2
  | .ok o =>
    try runSession o.clamped
    catch e =>
      IO.eprintln s!"I/O error: {e}"
      return 1

end Famicom

def main (words : List String) : IO UInt32 := Famicom.runCommandLine words
