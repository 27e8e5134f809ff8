/-
Symbols: what the debug information of a module declares.
-/
namespace Dwarf2

/-- The place of a symbol in its table. -/
structure SymbolId where
  index : Nat
deriving DecidableEq, Repr

/-- The place of a source file in its table. -/
structure SourceId where
  index : Nat
deriving DecidableEq, Repr

namespace Symbol

inductive Basic
  | noType
  | void
  | char
  | int
  | uint
  | float
  | bool
  | ulong
  | complex
deriving DecidableEq, Repr

structure BaseType where
  name : String
  basic : Basic
  size : UInt64
deriving DecidableEq, Repr

structure Pointer where
  target : Option SymbolId
  size : UInt64
deriving DecidableEq, Repr

structure ArrayType where
  min : Int64
  max : Int64
  element : Option SymbolId
  index : Option SymbolId
deriving DecidableEq, Repr

/-- How many elements lie between the bounds.  Bounds that a count was turned into give that
count. -/
def ArrayType.count (a : ArrayType) : UInt64 :=
  UInt64.ofNat (Nat.min (a.max.toInt - a.min.toInt).toNat 0x7fffffffffffffff)

structure Typedef where
  name : String
  target : Option SymbolId
deriving DecidableEq, Repr

/-- A member of an aggregate.  Its place counts bits from the start of the aggregate, and
its size is zero unless it is a bit field. -/
structure Member where
  name : String
  type : Option SymbolId
  bitOffset : UInt64
  bitSize : UInt64
deriving DecidableEq, Repr

inductive AggregateKind
  | structType
  | classType
  | unionType
deriving DecidableEq, Repr

structure Aggregate where
  name : String
  kind : AggregateKind
  size : UInt64
  members : Array Member := #[]
deriving DecidableEq, Repr

structure Enumerator where
  name : String
  value : Int64
deriving DecidableEq, Repr

structure Enumeration where
  name : String
  size : UInt64
  enumerators : Array Enumerator := #[]
deriving DecidableEq, Repr

inductive Convention
  | farC
deriving DecidableEq, Repr

structure Signature where
  returnType : Option SymbolId
  convention : Convention := .farC
  parameters : Array (Option SymbolId) := #[]
deriving DecidableEq, Repr

inductive LocalKind
  | parameter
  | variable
deriving DecidableEq, Repr

/-- A parameter or variable that lives in a register, or at an offset from the address in
one. -/
structure Local where
  name : String
  kind : LocalKind
  register : UInt16
  deref : Bool
  offset : Int64
  /-- Index of the innermost block that declares it. -/
  block : Option Nat
  type : Option SymbolId
deriving DecidableEq, Repr

structure Block where
  address : UInt64
  length : UInt64
  /-- Index of the block around it. -/
  parent : Option Nat
deriving DecidableEq, Repr

structure Label where
  name : String
  address : UInt64
deriving DecidableEq, Repr

/-- The source line of the instruction at an offset from the start of its function. -/
structure LineFact where
  source : SourceId
  line : UInt64
  offset : UInt64
deriving DecidableEq, Repr

structure Function where
  name : String
  compiland : Option SymbolId
  address : UInt64
  length : UInt64
  signature : SymbolId
  locals : Array Local := #[]
  blocks : Array Block := #[]
  labels : Array Label := #[]
  /-- In the order of their offsets. -/
  lines : List LineFact := []
  normalized : Bool := false
deriving DecidableEq, Repr

/-- The end counts as inside, so that the row that closes a line sequence lands on the
function that the sequence is about. -/
def Function.covers (f : Function) (address : UInt64) : Bool :=
  f.address ≤ address ∧ address - f.address ≤ f.length

structure Global where
  name : String
  compiland : Option SymbolId
  /-- Whether only its own unit sees it. -/
  isStatic : Bool
  address : UInt64
  size : UInt64
  type : Option SymbolId
deriving DecidableEq, Repr

end Symbol

inductive Symbol
  /-- The place of a symbol that is still being built. -/
  | placeholder
  | compiland (source : SourceId)
  | baseType (b : Symbol.BaseType)
  | pointer (p : Symbol.Pointer)
  | array (a : Symbol.ArrayType)
  | typedef (d : Symbol.Typedef)
  | aggregate (a : Symbol.Aggregate)
  | enumeration (e : Symbol.Enumeration)
  | signature (s : Symbol.Signature)
  | function (f : Symbol.Function)
  | global (g : Symbol.Global)
deriving DecidableEq, Repr

namespace Symbol

def kindName : Symbol → String
  | placeholder => "placeholder"
  | compiland _ => "compiland"
  | baseType _ => "base type"
  | pointer _ => "pointer"
  | array _ => "array"
  | typedef _ => "typedef"
  | aggregate _ => "user defined type"
  | enumeration _ => "enumeration"
  | signature _ => "function signature"
  | function _ => "function"
  | global _ => "global variable"

/-- Where the symbol lies in memory, if it does. -/
def address? : Symbol → Option UInt64
  | function f => some f.address
  | global g => some g.address
  | _ => none

end Symbol
end Dwarf2
