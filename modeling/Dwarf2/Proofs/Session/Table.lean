/-
The table that a module is decoded into.
-/
import Dwarf2.Proofs.CompilationUnit.Table
import Dwarf2.Proofs.Session

namespace Dwarf2
namespace Session

open CompilationUnit (Adds)

variable {sections : Sections} {image : Image}

theorem Run.adds {offset : Nat} {session final : Session} {outcomes : List Outcome}
    (run : Run sections image offset session outcomes final) : Adds session final := by
  induction run with
  | outside | unreadable => exact .refl _
  | unit _ _ _ ih => exact (CompilationUnit.adds_decode sections image _ _).trans ih

/-- Whatever the sections hold, no symbol is left unfinished, and no number in the table stands
for anything but what it is meant for. -/
theorem wellFormed_decode (sections : Sections) (image : Image) (names : NameSupply) :
    (decode sections image { names }).2.symbols.WellFormed := by
  obtain ⟨outcomes, final, run, eq⟩ := run_decode sections image { names }
  rw [eq]
  exact (run.adds.wellFormed .empty).offer capabilities

end Session
end Dwarf2
