/-
The program: reads the script named on the command line, runs it and writes
what it reports.
-/
import ScopedScript.CommandLine

namespace ScopedScript.CommandLine

/-- The bytes of a file, if it can be read. -/
def readScript (path : String) : IO (Option ByteArray) := do
  try
    return some (← IO.FS.readBinFile path)
  catch _ =>
    IO.eprintln ("Failed to read the input file '" ++ path ++ "'")
    return none

end ScopedScript.CommandLine

open ScopedScript.CommandLine in
/-- Answers the command line. -/
def main (arguments : List String) : IO UInt32 := do
  let request := Request.ofArguments arguments
  if request = .refused then
    IO.eprintln "Usage: sprig [OPTIONS] <CONTENTS>"
  let file ← match request.path? with
    | some path => readScript path
    | none => pure none
  let response := request.respond file
  IO.print response.output
  return response.status
