/-
Running line number programs: the rows of a program are attached to the functions that
cover them.

A program that breaks off keeps what it has done until then, the files it has named and the
lines it has attached.
-/
import Dwarf2.Line.Row
import Dwarf2.Symbol.Table
import Dwarf2.Text.Utf8

namespace Dwarf2
namespace Line

/-- The name of an include directory; none for the empty name that ends the list. -/
def readDirectory? (s : Section) : Read (Option String) :=
  (fun bytes => if bytes.isEmpty then none else some (Text.ofUtf8 bytes)) <$> s.string

def readDirectories (s : Section) : Read (List String) :=
  Read.many (readDirectory? s) s.bytes.size (s.string_progresses.map _).items

/-- A file of the program, in one of its directories. -/
structure File where
  name : String
  directory : UInt64

/-- A file; none for the empty name that ends the list.  Its time and length are not looked
at. -/
def readFile? (s : Section) : Read (Option File) := do
  let bytes ← s.string
  if bytes.isEmpty then
    return none
  let directory ← s.unsigned
  Instruction.readOperands s 2
  return some ⟨Text.ofUtf8 bytes, directory⟩

theorem readFile?_progresses (s : Section) : (readFile? s).Progresses s.bytes.size :=
  s.string_progresses.bind _

def collectFiles (s : Section) (start : Nat) : List File × Except Error Unit :=
  let r := Read.collect (readFile? s) s.bytes.size (readFile?_progresses s).items start
  (r.1, r.2.map fun _ => ())

/-- The directories by their numbers.  Number zero is where the unit was compiled. -/
def directoriesOf (compDir : Option String) (included : List String) : Array String :=
  (compDir.getD "." :: included.map (Path.ofDirectory compDir)).toArray

/-- The sources of the files.  A directory that is not there counts as none. -/
def internFiles (directories : Array String) (files : List File) (t : Symbol.Table) :
    Array SourceId × Symbol.Table :=
  files.foldl (fun (sources, t) file =>
    let (source, t) := t.internFile directories[file.directory.toNat]? file.name
    (sources.push source, t)) (#[], t)

/-- Rows of files that are not there are dropped. -/
def sourceOf? (sources : Array SourceId) (file : UInt64) : Option SourceId :=
  if file = 0 then none else sources[file.toNat - 1]?

/-- Attaches a row and counts it if its function did not have it before. -/
def attach (sources : Array SourceId) (attached : Nat × Symbol.Table) (row : Row) :
    Nat × Symbol.Table :=
  match sourceOf? sources row.file with
  | none => attached
  | some source =>
    match attached.2.addLine source row.line row.address with
    | (true, t) => (attached.1 + 1, t)
    | (false, t) => (attached.1, t)

/-- Runs the program at an offset of the section.  The answer is how many lines it
attached. -/
def run (s : Section) (offset : Nat) (compDir : Option String) (addressSize : UInt8)
    (base : UInt64) (t : Symbol.Table) : Except Error Nat × Symbol.Table :=
  if s.bytes.size ≤ offset then
    (.error (.malformed s.kind (.programOffset offset)), t)
  else
    let tables : Read (Header × List String) := do
      let h ← Header.read s
      return (h, ← readDirectories s)
    match tables.run offset with
    | .error e => (.error e, t)
    | .ok ((h, included), next) =>
      let (files, ending) := collectFiles s next
      let (sources, t) := internFiles (directoriesOf compDir included) files t
      match ending with
      | .error e => (.error e, t)
      | .ok () =>
        let program : Section := { s with bytes := s.bytes.extract 0 h.stop }
        let (instructions, ending) := Instruction.collect program h addressSize h.program
        let (attached, t) :=
          (Row.ofInstructions h base instructions).foldl (attach sources) (0, t)
        (ending.map fun () => attached, t)

end Line
end Dwarf2
