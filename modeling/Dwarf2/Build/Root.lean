/-
Building a whole unit from its root entry.
-/
import Dwarf2.Build.Resolve

namespace Dwarf2
namespace Build

/-- What the root entry says about the unit. -/
structure Root where
  compiland : SymbolId
  compDir : Option String
  /-- Offset of the line number program. -/
  lineProgram : Option UInt64

/-- The compiland of a unit, and the symbols of all entries directly under its root. -/
def buildUnit (src : Source) : Build (Except Error Root) := do
  let root := src.tree.root
  if root.tag ≠ .compileUnit then
    return .error (.unexpectedRoot root.tag)
  let name ← nameOf src root "compiland"
  let compDir := root.text? src.view .compDir
  let source ← onTable (·.internFile compDir name)
  let compiland ← push (.compiland source)
  setSlot root.offset (.resolved (some compiland))
  modify fun s => { s with compiland := some compiland }
  root.children.forM fun child => do let _ ← resolve src child.offset
  return .ok ⟨compiland, compDir, root.unsigned? src.view .lineProgram⟩

end Build
end Dwarf2
