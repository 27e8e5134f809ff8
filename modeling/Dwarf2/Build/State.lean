/-
What the building of a unit's symbols works on and with.

Every entry has a slot that remembers its symbol.  While the symbol is being built, the slot
may already tell its identifier, so that entries in a circle can refer to one another.
-/
import Dwarf2.Entry.Tree
import Dwarf2.Image
import Dwarf2.NameSupply
import Dwarf2.Symbol.Table

namespace Dwarf2
namespace Build

inductive Slot
  | unresolved
  | pending (id : Option SymbolId)
  | resolved (id : Option SymbolId)
deriving DecidableEq, Repr

/-- What happens while symbols are built. -/
inductive Event
  /-- An entry was asked for its symbol, and this was the answer. -/
  | answered (offset : Nat) (id : Option SymbolId)
  /-- An entry was asked for its symbol with no steps left. -/
  | exhausted (offset : Nat)
  /-- The type that an entry refers to was looked up, and its slot was found like this. -/
  | followed (offset target : Nat) (found : Slot)
  | reserved (id : SymbolId)
  /-- A symbol was given to a reserved place, with or without effect. -/
  | filled (id : SymbolId) (placed : Bool)
deriving DecidableEq, Repr

structure State where
  symbols : Symbol.Table
  names : NameSupply
  /-- By the offsets of the entries.  An entry that is not here is unresolved. -/
  slots : Std.HashMap Nat Slot := ∅
  compiland : Option SymbolId := none
  /-- What has happened so far, the last first.  Nothing is decided by it. -/
  journal : List Event := []

namespace State

def mark (s : State) (offset : Nat) (slot : Slot) : State :=
  { s with slots := s.slots.insert offset slot }

def note (s : State) (event : Event) : State :=
  { s with journal := event :: s.journal }

end State

/-- What stays as it is while a unit is built. -/
structure Source where
  view : UnitView
  tree : Entry.Tree
  image : Image

end Build

abbrev Build := StateM Build.State

namespace Build

def slot (s : State) (offset : Nat) : Slot :=
  s.slots.getD offset .unresolved

def setSlot (offset : Nat) (slot : Slot) : Build Unit :=
  modify (·.mark offset slot)

def note (event : Event) : Build Unit :=
  modify (·.note event)

/-- Lets other entries refer to the symbol of an entry that is still being built. -/
def expose (e : Entry) (id : SymbolId) : Build Unit :=
  setSlot e.offset (.pending (some id))

def onTable {α : Type} (f : Symbol.Table → α × Symbol.Table) : Build α :=
  modifyGet fun s =>
    let (a, symbols) := f s.symbols
    (a, { s with symbols })

def change (f : Symbol.Table → Symbol.Table) : Build Unit :=
  modify fun s => { s with symbols := f s.symbols }

def push (s : Symbol) : Build SymbolId :=
  onTable (·.push s)

/-- A place for the symbol of an entry, filled with what is built for it.  Other entries may
refer to the place while that is going on. -/
def inPlace (e : Entry) (build : Build Symbol) : Build SymbolId := do
  let id ← onTable (·.reserve)
  note (.reserved id)
  expose e id
  let symbol ← build
  let placed := (← get).symbols.get? id = some .placeholder
  change (·.fill id symbol)
  note (.filled id placed)
  return id

/-- A symbol that takes up its parts one after another, and may be referred to while it
does. -/
def withParts (e : Entry) (symbol : Symbol) (parts : SymbolId → Build Unit) : Build SymbolId := do
  let id ← push symbol
  expose e id
  parts id
  return id

def fresh (label : String) : Build String :=
  modifyGet fun s =>
    let (name, names) := s.names.fresh label
    (name, { s with names })

/-- The name of an entry, or a fresh one if it has none. -/
def nameOf (src : Source) (e : Entry) (label : String) : Build String :=
  match e.text? src.view .name with
  | some name => return name
  | none => fresh label

/-- How an entry gets at the symbol of another, given by its offset. -/
abbrev Resolver := Nat → Build (Option SymbolId)

/-- The symbol of the type that an entry refers to. -/
def typeOf (src : Source) (resolve : Resolver) (e : Entry) : Build (Option SymbolId) := do
  match e.reference? src.view .type with
  | some target =>
    note (.followed e.offset target (slot (← get) target))
    resolve target
  | none => return none

end Build
end Dwarf2
