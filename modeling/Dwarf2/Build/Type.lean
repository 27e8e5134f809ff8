/-
Building the symbols of types.

A type that can be part of a circle exposes its identifier before it asks for any other
type.  Names and identifiers are taken in the order of the steps.
-/
import Dwarf2.Build.State

namespace Dwarf2
namespace Build

/-- The basic type that an encoding stands for. -/
def basicOf (encoding : UInt64) : Symbol.Basic :=
  match encoding with
  | 0 => .void
  | 1 => .ulong
  | 2 => .bool
  | 3 => .complex
  | 4 => .float
  | 5 => .int
  | 6 | 8 => .char
  | 7 => .uint
  | _ => .noType

def buildBaseType (src : Source) (e : Entry) : Build SymbolId := do
  let name ← nameOf src e "basetype"
  let size := (e.unsigned? src.view .byteSize).getD 0
  push (.baseType ⟨name, basicOf ((e.unsigned? src.view .encoding).getD 0), size⟩)

def buildTypedef (src : Source) (resolve : Resolver) (e : Entry) : Build SymbolId :=
  inPlace e do
    let name ← nameOf src e "typedef"
    let target ← typeOf src resolve e
    return .typedef ⟨name, target⟩

/-- A pointer, or a reference, which is taken for a pointer. -/
def buildPointer (src : Source) (resolve : Resolver) (e : Entry) : Build SymbolId :=
  inPlace e do
    let size := (e.unsigned? src.view .byteSize).getD src.view.addressSize.toUInt64
    let target ← typeOf src resolve e
    return .pointer ⟨target, size⟩

/-- The bounds of an array and the type of its index. -/
structure Subrange where
  min : Int64 := 0
  max : Int64 := 0
  index : Option SymbolId := none

/-- A count takes the place of an upper bound. -/
def readSubrange (src : Source) (resolve : Resolver) (e : Entry) : Build Subrange := do
  let index ← typeOf src resolve e
  let min := (e.signed? src.view .lowerBound).getD 0
  let max := match e.signed? src.view .count with
    | some count => min + count
    | none => (e.signed? src.view .upperBound).getD 0
  return ⟨min, max, index⟩

/-- What a child of an array says of its bounds.  Only subranges say anything. -/
def readBounds (src : Source) (resolve : Resolver) (range : Subrange) (e : Entry) :
    Build Subrange :=
  match e.tag with
  | .subrangeType => readSubrange src resolve e
  | _ => return range

/-- An array has the bounds of its last subrange.  One that cannot have any is no type. -/
def buildArray (src : Source) (resolve : Resolver) (e : Entry) : Build (Option SymbolId) := do
  if !e.abbreviation.hasChildren then
    return none
  some <$> inPlace e do
    let element ← typeOf src resolve e
    let range ← e.children.foldlM (readBounds src resolve) {}
    return .array ⟨range.min, range.max, element, range.index⟩

/-- Declared bit offsets count down from the high end of a storage unit of so many bytes;
the place that is recorded counts up from its low end. -/
def bitsBelow (bytes declared size : UInt64) : UInt64 :=
  bytes * 8 - declared - size

def buildMember (src : Source) (resolve : Resolver) (aggregate : SymbolId) (e : Entry) :
    Build Unit := do
  let name ← nameOf src e "udt_member"
  let type ← typeOf src resolve e
  let offset := ((e.location? src.view .memberLocation).map Location.offset).getD 0
  let size := (e.unsigned? src.view .bitSize).getD 0
  let symbols := (← get).symbols
  let below := match e.unsigned? src.view .bitOffset with
    | some declared =>
      let bytes := e.unsigned? src.view .byteSize <|> type.bind symbols.typeLength?
      bitsBelow (bytes.getD 0) declared size
    | none => 0
  change (·.addMember aggregate ⟨name, type, (offset.toUInt64 <<< 3) + below, size⟩)

/-- What a child of an aggregate adds to it.  Of the types declared in an aggregate only
enumerations are built with it. -/
def buildContent (src : Source) (resolve : Resolver) (aggregate : SymbolId) (e : Entry) :
    Build Unit :=
  match e.tag with
  | .member => buildMember src resolve aggregate e
  | .enumerationType => do let _ ← resolve e.offset
  | _ => return ()

/-- A structure, class or union. -/
def buildAggregate (src : Source) (resolve : Resolver) (kind : Symbol.AggregateKind) (e : Entry) :
    Build SymbolId := do
  let name ← nameOf src e "udt"
  let size := (e.unsigned? src.view .byteSize).getD 0
  withParts e (.aggregate { name, kind, size }) fun id =>
    e.children.forM (buildContent src resolve id)

def buildEnumerator (src : Source) (enumeration : SymbolId) (e : Entry) : Build Unit := do
  match e.tag with
  | .enumerator =>
    let name ← nameOf src e "enum_value"
    let value := (e.signed? src.view .constValue).getD 0
    change (·.addEnumerator enumeration ⟨name, value⟩)
  | _ => return ()

def buildEnumeration (src : Source) (e : Entry) : Build SymbolId := do
  let name ← nameOf src e "enum"
  let size := (e.unsigned? src.view .byteSize).getD 0
  withParts e (.enumeration { name, size }) fun id =>
    e.children.forM (buildEnumerator src id)

def buildParameterType (src : Source) (resolve : Resolver) (signature : SymbolId) (e : Entry) :
    Build Unit := do
  match e.tag with
  | .formalParameter =>
    let type ← typeOf src resolve e
    change (·.addParameter signature type)
  | _ => return ()

/-- The type of a function.  It is exposed only after its return type has been asked for. -/
def buildSubroutineType (src : Source) (resolve : Resolver) (e : Entry) : Build SymbolId := do
  let returnType ← typeOf src resolve e
  withParts e (.signature { returnType }) fun id =>
    e.children.forM (buildParameterType src resolve id)

end Build
end Dwarf2
