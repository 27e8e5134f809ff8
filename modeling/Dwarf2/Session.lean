/-
Decoding all units of a module.

The lengths in their headers chain the units together, so a unit that cannot be decoded is
passed over.  A header that cannot be read ends the chain.
-/
import Dwarf2.CompilationUnit

namespace Dwarf2
namespace Session

/-- A unit and whether its symbols were built. -/
structure Outcome where
  offset : Nat
  processed : Bool
deriving DecidableEq, Repr

def processed (outcomes : List Outcome) : Nat :=
  outcomes.countP Outcome.processed

def decodeFrom (sections : Sections) (image : Image) (offset : Nat) (outcomes : List Outcome)
    (session : Session) : List Outcome × Session :=
  if offset < sections.information.size then
    match eq : (CompilationUnit.Header.read
        ⟨.information, sections.order, sections.information⟩).run offset with
    | .error _ => (outcomes, session)
    | .ok (h, _) =>
      have := CompilationUnit.Header.offset_of_read eq
      let (r, session) := CompilationUnit.decode sections image h session
      decodeFrom sections image h.nextOffset (⟨offset, r.isOk⟩ :: outcomes) session
  else
    (outcomes, session)
termination_by sections.information.size - offset
decreasing_by simp only [CompilationUnit.Header.nextOffset]; omega

/-- All that a decoded table has to offer. -/
def capabilities : Symbol.Capabilities :=
  ⟨true, true, true, true⟩

/-- Decodes every unit, in order, and tells what became of each. -/
def decode (sections : Sections) (image : Image) (session : Session) :
    List Outcome × Session :=
  let (outcomes, session) := decodeFrom sections image 0 [] session
  (outcomes.reverse, { session with symbols := { session.symbols with capabilities } })

end Session
end Dwarf2
