/-
The command: it decodes the sections in the files it is given and prints what they hold.
-/
import Dwarf2.Session
import Dwarf2.Text.Quoted

namespace Dwarf2
namespace CommandLine

structure Outcome where
  status : UInt8
  output : String := ""
  errors : String := ""
deriving DecidableEq, Repr

/-- The files to decode, in the order they are opened. -/
structure Options where
  order : ByteOrder
  information : String
  abbreviations : String
  strings : String
  lines : Option String
deriving DecidableEq, Repr

def Options.paths (o : Options) : List String :=
  [o.information, o.abbreviations, o.strings] ++ o.lines.toList

def parsePaths? (order : ByteOrder) : List String → Option Options
  | [information, abbreviations, strings] =>
    some ⟨order, information, abbreviations, strings, none⟩
  | [information, abbreviations, strings, lines] =>
    some ⟨order, information, abbreviations, strings, some lines⟩
  | _ => none

/-- The flag for the byte order counts only as the first argument. -/
def parse? : List String → Option Options
  | "--big-endian" :: paths => parsePaths? .big paths
  | paths => parsePaths? .little paths

def usage (program : String) : Outcome :=
  { status := 1
    errors :=
      "Usage: " ++ Text.quoted program ++ " [--big-endian] <info> <abbrev> <str> [line]\n" }

def missing (path : String) : Outcome :=
  { status := 1
    errors :=
      "Error: could not open " ++ Text.quoted path ++ "\n\n" ++
      "Caused by:\n    No such file or directory (os error 2)\n" }

/-- The sections, or the first path that leads to no file. -/
def load (file? : String → Option Bytes) (o : Options) : Except String Sections := do
  return {
    order := o.order
    information := ← content o.information
    abbreviations := ← content o.abbreviations
    strings := ← content o.strings
    lines := ← match o.lines with
      | some path => content path
      | none => .ok #[] }
where
  content (path : String) : Except String Bytes :=
    match file? path with
    | some bytes => .ok bytes
    | none => .error path

/-- The kinds among the symbols in the order of their names, each with its count. -/
def kindCounts (symbols : List Symbol) : List (String × Nat) :=
  let kinds := symbols.map Symbol.kindName
  (kinds.eraseDups.mergeSort (· ≤ ·)).map fun kind => (kind, kinds.count kind)

def countLine (count : String × Nat) : String :=
  "  " ++ count.1 ++ ": " ++ count.2.repr

def skippedLine (o : Session.Outcome) : String :=
  "  skipped unit at " ++ Text.hexPadded 8 o.offset

def flagText (flag : Bool) : String :=
  if flag then "true" else "false"

def capabilitiesLine (c : Symbol.Capabilities) : String :=
  "Capabilities \x7b line_numbers: " ++ flagText c.lineNumbers
    ++ ", global_symbols: " ++ flagText c.globalSymbols
    ++ ", type_info: " ++ flagText c.typeInfo
    ++ ", source_indexed: " ++ flagText c.sourceIndexed ++ " \x7d"

def report (outcomes : List Session.Outcome) (t : Symbol.Table) : List String :=
  ["compilation units: " ++ (Session.processed outcomes).repr ++ " of "
      ++ outcomes.length.repr ++ " decoded"]
    ++ (outcomes.filter (!·.processed)).map skippedLine
    ++ ["symbols: " ++ t.size.repr]
    ++ (kindCounts t.symbols.toList).map countLine
    ++ ["sources: " ++ t.sources.size.repr, capabilitiesLine t.capabilities]

/-- The whole command, given its name, its arguments and the files there are. -/
def run (program : String) (args : List String) (file? : String → Option Bytes) : Outcome :=
  match parse? args with
  | none => usage program
  | some options =>
    match load file? options with
    | .error path => missing path
    | .ok sections =>
      let (outcomes, session) := Session.decode sections ⟨0, []⟩ {}
      { status := 0
        output := String.join ((report outcomes session.symbols).map (· ++ "\n")) }

end CommandLine
end Dwarf2
