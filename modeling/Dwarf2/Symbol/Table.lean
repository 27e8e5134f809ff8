/-
The symbols of a module.

Symbols refer to one another by their places in the table, so a symbol can be referred to
before it is known.  Operations on a symbol that is not there, or of another kind than they
are about, leave the table as it is.
-/
import Dwarf2.Path
import Dwarf2.Symbol.AddressIndex
import Dwarf2.Symbol.Sources
import Dwarf2.Word

namespace Dwarf2
namespace Symbol

/-- What a table has to offer. -/
structure Capabilities where
  lineNumbers : Bool := false
  globalSymbols : Bool := false
  typeInfo : Bool := false
  sourceIndexed : Bool := false
deriving DecidableEq, Repr

structure Table where
  symbols : Array Symbol := #[]
  addresses : AddressIndex := {}
  interned : Sources := {}
  /-- Locals that belong to no function. -/
  detached : Array Local := #[]
  capabilities : Capabilities := {}

namespace Table

def size (t : Table) : Nat :=
  t.symbols.size

/-- Paths of the source files, no two alike. -/
def sources (t : Table) : Array String :=
  t.interned.paths

def get? (t : Table) (id : SymbolId) : Option Symbol :=
  t.symbols[id.index]?

def function? (t : Table) (id : SymbolId) : Option Function :=
  match t.get? id with
  | some (.function f) => some f
  | _ => none

/-- Makes a symbol that lies in memory known by its address. -/
def place (t : Table) (id : SymbolId) (s : Symbol) : Table :=
  match s.address? with
  | some address => { t with addresses := t.addresses.insert ⟨address, id⟩ }
  | none => t

def push (t : Table) (s : Symbol) : SymbolId × Table :=
  let id : SymbolId := ⟨t.symbols.size⟩
  (id, { t with symbols := t.symbols.push s }.place id s)

def update (t : Table) (id : SymbolId) (f : Symbol → Symbol) : Table :=
  { t with symbols := t.symbols.modify id.index f }

/-- A place for a symbol that refers to others still to come. -/
def reserve (t : Table) : SymbolId × Table :=
  t.push .placeholder

/-- Puts a symbol in the place reserved for it.  A place is filled once. -/
def fill (t : Table) (id : SymbolId) (s : Symbol) : Table :=
  match t.get? id with
  | some .placeholder => (t.update id fun _ => s).place id s
  | _ => t

def addMember (t : Table) (id : SymbolId) (m : Member) : Table :=
  t.update id fun
    | .aggregate a => .aggregate { a with members := a.members.push m }
    | s => s

def addEnumerator (t : Table) (id : SymbolId) (e : Enumerator) : Table :=
  t.update id fun
    | .enumeration a => .enumeration { a with enumerators := a.enumerators.push e }
    | s => s

def addParameter (t : Table) (id : SymbolId) (type : Option SymbolId) : Table :=
  t.update id fun
    | .signature a => .signature { a with parameters := a.parameters.push type }
    | s => s

def updateFunction (t : Table) (id : SymbolId) (f : Function → Function) : Table :=
  t.update id fun
    | .function a => .function (f a)
    | s => s

def addLocal (t : Table) (id : SymbolId) (l : Local) : Table :=
  t.updateFunction id fun f => { f with locals := f.locals.push l }

def addDetached (t : Table) (l : Local) : Table :=
  { t with detached := t.detached.push l }

/-- Adds a block to a function and gives its index there. -/
def openBlock (t : Table) (id : SymbolId) (b : Block) : Option Nat × Table :=
  match t.function? id with
  | some f =>
    (some f.blocks.size, t.updateFunction id fun f => { f with blocks := f.blocks.push b })
  | none => (none, t)

def addLabel (t : Table) (id : SymbolId) (l : Label) : Table :=
  t.updateFunction id fun f => { f with labels := f.labels.push l }

def sortLabels (labels : Array Label) : Array Label :=
  (labels.toList.mergeSort fun a b => a.address ≤ b.address).toArray

/-- Ends the building of a function. -/
def normalize (t : Table) (id : SymbolId) : Table :=
  t.updateFunction id fun f => { f with labels := sortLabels f.labels, normalized := true }

/-- The function or global variable that starts nearest before the address, or at it. -/
def nearest? (t : Table) (address : UInt64) : Option SymbolId :=
  t.addresses.nearest? address

/-- Puts a fact behind all that do not start later; none if it is already among them. -/
def insertLine? (fact : LineFact) : List LineFact → Option (List LineFact)
  | [] => some [fact]
  | first :: rest =>
    if fact.offset < first.offset then some (fact :: first :: rest)
    else if first = fact then none
    else (insertLine? fact rest).map (first :: ·)

/-- Gives the line at an address to the function that covers it, and tells whether the
function did not have it before. -/
def addLine (t : Table) (source : SourceId) (line address : UInt64) : Bool × Table :=
  match t.nearest? address with
  | none => (false, t)
  | some id =>
    match t.function? id with
    | none => (false, t)
    | some f =>
      if f.covers address then
        match insertLine? ⟨source, line, address - f.address⟩ f.lines with
        | some lines => (true, t.updateFunction id fun f => { f with lines })
        | none => (false, t)
      else
        (false, t)

/-- The source of a path, which is put behind the others if it is new. -/
def intern (t : Table) (path : String) : SourceId × Table :=
  let (id, interned) := t.interned.intern path
  (id, { t with interned })

def internFile (t : Table) (directory : Option String) (name : String) : SourceId × Table :=
  t.intern (Path.ofFile directory name)

def source? (t : Table) (id : SourceId) : Option String :=
  t.interned.path? id

/-- Follows typedefs and arrays to a type that has a size, for at most `hops` symbols. -/
def lengthWithin (t : Table) : (hops : Nat) → (elements : UInt64) → SymbolId → Option UInt64
  | 0, _, _ => none
  | hops + 1, elements, id =>
    match t.get? id with
    | some (.baseType b) => some (Word.saturatingMul b.size elements)
    | some (.pointer p) => some (Word.saturatingMul p.size elements)
    | some (.aggregate a) => some (Word.saturatingMul a.size elements)
    | some (.enumeration e) => some (Word.saturatingMul e.size elements)
    | some (.array a) =>
      a.element.bind (t.lengthWithin hops (Word.saturatingMul elements a.count))
    | some (.typedef d) => d.target.bind (t.lengthWithin hops elements)
    | _ => none

/-- How many bytes a value of the type takes.  A walk of more hops than there are symbols
goes in circles: a type that contains itself has no length. -/
def typeLength? (t : Table) (id : SymbolId) : Option UInt64 :=
  t.lengthWithin (t.size + 1) 1 id

end Table
end Symbol
end Dwarf2
