/-
The executable around the command: it reads the files that the command asks for, and prints.
-/
import Dwarf2.CommandLine

namespace Dwarf2
namespace CommandLine

def readFile? (path : String) : IO (Option Bytes) := do
  try
    return some (← IO.FS.readBinFile path).data
  catch _ =>
    return none

def readFiles (paths : List String) : IO (List (String × Option Bytes)) :=
  paths.mapM fun path => return (path, ← readFile? path)

end CommandLine
end Dwarf2

open Dwarf2 in
def main (args : List String) : IO UInt32 := do
  let paths := ((CommandLine.parse? args).map (·.paths)).getD []
  let files ← CommandLine.readFiles paths
  let outcome := CommandLine.run "dwarf2" args fun path => (files.lookup path).join
  IO.print outcome.output
  IO.eprint outcome.errors
  return outcome.status.toUInt32
