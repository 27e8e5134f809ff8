/-
Compilation units: their headers, and how a unit is decoded into a session.
-/
import Dwarf2.Build.Root
import Dwarf2.Line.Program
import Dwarf2.Session.Basic

namespace Dwarf2

namespace CompilationUnit

structure Header where
  /-- Where the header is. -/
  offset : Nat
  /-- How long the unit is, without this field. -/
  length : UInt32
  version : UInt16
  abbrevOffset : UInt32
  addressSize : UInt8
deriving DecidableEq, Repr

namespace Header

def read (s : Section) : Read Header := do
  let offset ← Read.position
  let length ← s.uint32
  if length = 0xffffffff then
    s.fault (.wideFormat offset)
  else
    return {
      offset, length
      version := ← s.uint16
      abbrevOffset := ← s.uint32
      addressSize := ← s.uint8 }

theorem offset_of_read {s : Section} {start : Nat} {h : Header} {stop : Nat}
    (eq : (read s).run start = .ok (h, stop)) : h.offset = start := by
  simp only [read, Read.run_bind, Read.run_position, Except.bind] at eq
  split at eq
  · cases eq
  · split at eq
    · cases eq
    · simp only [Read.run_bind, Read.run_pure, Except.bind] at eq
      split at eq
      · cases eq
      · split at eq
        · cases eq
        · split at eq
          · cases eq
          · cases eq
            rfl

/-- Where the header of the next unit is. -/
def nextOffset (h : Header) : Nat :=
  h.offset + 4 + h.length.toNat

/-- Where the root entry is. -/
def entries (h : Header) : Nat :=
  h.offset + 11

end Header

def viewOf (sections : Sections) (h : Header) : UnitView :=
  ⟨sections.order, sections.information, sections.strings, h.offset, h.addressSize⟩

def readAbbreviations (sections : Sections) (h : Header) : Except Error Abbreviation.Table :=
  Abbreviation.Table.read ⟨.abbreviations, sections.order, sections.abbreviations⟩
    h.abbrevOffset.toNat

def readTree (sections : Sections) (h : Header) (abbreviations : Abbreviation.Table) :
    Except Error Entry.Tree :=
  Entry.Tree.read (viewOf sections h) abbreviations h.entries h.nextOffset

/-- What the symbols of a unit are built from. -/
def source (sections : Sections) (image : Image) (h : Header) : Except Error Build.Source := do
  if h.version ≠ 2 then
    throw (.unsupportedVersion h.version)
  let abbreviations ← readAbbreviations sections h
  return ⟨viewOf sections h, ← readTree sections h abbreviations, image⟩

/-- Runs the line number program of a unit, if there is one.  A program that fails does not
fail its unit. -/
def attachLines (sections : Sections) (image : Image) (h : Header) (root : Build.Root)
    (symbols : Symbol.Table) : Symbol.Table :=
  match root.lineProgram with
  | none => symbols
  | some offset =>
    if sections.lines.isEmpty then symbols
    else
      (Line.run ⟨.lines, sections.order, sections.lines⟩ offset.toNat root.compDir h.addressSize
        image.base symbols).2

def decode (sections : Sections) (image : Image) (h : Header) (session : Session) :
    Except Error Unit × Session :=
  match source sections image h with
  | .error e => (.error e, session)
  | .ok src =>
    match (Build.buildUnit src).run { symbols := session.symbols, names := session.names } with
    | (.error e, s) => (.error e, { symbols := s.symbols, names := s.names })
    | (.ok root, s) =>
      (.ok (), { symbols := attachLines sections image h root s.symbols, names := s.names })

end CompilationUnit
end Dwarf2
