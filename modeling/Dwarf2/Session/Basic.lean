/-
The sections of a module, and what its units are decoded into.
-/
import Dwarf2.Bytes
import Dwarf2.NameSupply
import Dwarf2.Symbol.Table

namespace Dwarf2

/-- The sections of a module.  The lines may be missing, and are then empty. -/
structure Sections where
  order : ByteOrder
  information : Bytes
  abbreviations : Bytes
  strings : Bytes
  lines : Bytes

/-- The symbols so far, and the names that are still free for those to come. -/
structure Session where
  symbols : Symbol.Table := {}
  names : NameSupply := {}

end Dwarf2
