/-
The module that the debug information describes, as it lies in memory.
-/
namespace Dwarf2

/-- A named range of addresses that a compiler has filled with jumps. -/
structure Thunk where
  name : String
  start : UInt64
  stop : UInt64
deriving DecidableEq, Repr

def Thunk.contains (t : Thunk) (address : UInt64) : Bool :=
  t.start ≤ address ∧ address < t.stop

structure Image where
  base : UInt64
  thunks : List Thunk

namespace Image

/-- Every address in the debug information counts from the base. -/
def address (image : Image) (offset : UInt64) : UInt64 :=
  image.base + offset

def thunk? (image : Image) (address : UInt64) : Option Thunk :=
  image.thunks.find? (·.contains address)

end Image
end Dwarf2
