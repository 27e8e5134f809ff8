/-
Abbreviations: the shapes that the entries of a unit share.

A table is a list of declarations, ended by a null code or by the end of its section.
-/
import Dwarf2.AttributeName
import Dwarf2.Form
import Dwarf2.Section
import Std.Data.HashMap

namespace Dwarf2

/-- An attribute that every entry of a shape has, and the form of its value. -/
structure AttributeSpec where
  name : AttributeName
  form : Form
deriving DecidableEq, Repr

structure Abbreviation where
  code : UInt64
  tag : Tag
  hasChildren : Bool
  attributes : List AttributeSpec
deriving DecidableEq, Repr

namespace Abbreviation

/-- One attribute of the abbreviation with the given code; none for the pair of zeros that
ends the list. -/
def readAttribute? (s : Section) (code : UInt64) : Read (Option AttributeSpec) := do
  let start ← Read.position
  let name ← s.leb128
  let form ← s.leb128
  if Leb128.isZero name && Leb128.isZero form then
    return none
  match Leb128.uint16? name with
  | some name => return some ⟨⟨name⟩, Form.ofCode (Leb128.unsigned form)⟩
  | none => s.fault (.nameTooWide code start)

theorem readAttribute?_progresses (s : Section) (code : UInt64) :
    (readAttribute? s code).Progresses s.bytes.size :=
  .after fun _ => s.leb128_progresses.bind _

def readAttributes (s : Section) (code : UInt64) : Read (List AttributeSpec) :=
  Read.many (readAttribute? s code) s.bytes.size (readAttribute?_progresses s code).items

/-- What follows the code of a declaration. -/
def readBody (s : Section) (code : UInt64) : Read Abbreviation := do
  let start ← Read.position
  let tag ← s.leb128
  match Leb128.uint16? tag with
  | none => s.fault (.tagTooWide code start)
  | some tag =>
    let child ← s.uint8
    return ⟨code, ⟨tag⟩, child ≠ 0, ← readAttributes s code⟩

/-- One declaration; none for a null code. -/
def read? (s : Section) : Read (Option Abbreviation) := do
  let code ← s.unsigned
  if code = 0 then
    return none
  return some (← readBody s code)

theorem read?_progresses (s : Section) : (read? s).Progresses s.bytes.size :=
  s.unsigned_progresses.bind _

def readAll (s : Section) : Read (List Abbreviation) :=
  Read.many (s.untilEnd (read? s)) s.bytes.size (s.untilEnd_itemsProgress (read?_progresses s))

/-- The declarations of a unit by their codes. -/
structure Table where
  index : Std.HashMap UInt64 Abbreviation

namespace Table

/-- A later declaration of a code replaces an earlier one. -/
def ofDeclarations (declarations : List Abbreviation) : Table :=
  ⟨declarations.foldl (fun index a => index.insert a.code a) ∅⟩

def get? (t : Table) (code : UInt64) : Option Abbreviation :=
  t.index[code]?

def size (t : Table) : Nat :=
  t.index.size

/-- The table at an offset of the section, which may be its very end. -/
def read (s : Section) (offset : Nat) : Except Error Table := do
  if s.bytes.size < offset then
    throw (.malformed s.kind (.tableOffset offset s.bytes.size))
  return ofDeclarations (← (readAll s).value offset)

end Table
end Abbreviation
end Dwarf2
