/-
Building the symbol of an entry when it is first asked for.

An entry may be asked for while its symbol is being built; it then answers with what its
slot says.  Every step into an entry marks it first, so no chain of requests is longer than
there are entries, and that many steps are enough.
-/
import Dwarf2.Build.Function
import Dwarf2.Build.Type

namespace Dwarf2
namespace Build

/-- The symbol of an entry, where it has one. -/
def build (src : Source) (resolve : Resolver) (e : Entry) : Build (Option SymbolId) :=
  match e.tag with
  | .baseType => some <$> buildBaseType src e
  | .typedef => some <$> buildTypedef src resolve e
  | .pointerType | .referenceType => some <$> buildPointer src resolve e
  | .classType => some <$> buildAggregate src resolve .classType e
  | .structureType => some <$> buildAggregate src resolve .structType e
  | .unionType => some <$> buildAggregate src resolve .unionType e
  | .arrayType => buildArray src resolve e
  -- A qualified type is the type that it qualifies.
  | .constType | .volatileType => typeOf src resolve e
  | .enumerationType => some <$> buildEnumeration src e
  | .subprogram => buildSubprogram src resolve e
  | .subroutineType => some <$> buildSubroutineType src resolve e
  | .var => do
    buildVariable src resolve {} none e
    return none
  | _ => return none

def answer (offset : Nat) (id : Option SymbolId) : Build (Option SymbolId) := do
  note (.answered offset id)
  return id

def resolveWithin (src : Source) : (steps : Nat) → Resolver
  | steps, offset => do
    match src.tree.get? offset with
    | none => answer offset none
    | some e =>
      match slot (← get) offset with
      | .resolved id | .pending id => answer offset id
      | .unresolved =>
        match steps with
        | 0 =>
          note (.exhausted offset)
          return none
        | steps + 1 =>
          setSlot offset (.pending none)
          let id ← build src (resolveWithin src steps) e
          setSlot offset (.resolved id)
          answer offset id

/-- The symbol of the entry at an offset, built if it is not yet there. -/
def resolve (src : Source) : Resolver :=
  resolveWithin src src.tree.size

end Build
end Dwarf2
