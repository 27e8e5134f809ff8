/-
Names for entries that have none.
-/
namespace Dwarf2

/-- One counter serves all labels, so no two names of a session are equal. -/
structure NameSupply where
  next : Nat := 0
  /-- What has been given so far, the last first.  Nothing is decided by it. -/
  issued : List String := []

namespace NameSupply

def fresh (label : String) (names : NameSupply) : String × NameSupply :=
  let name := label ++ "_" ++ names.next.repr
  (name, ⟨names.next + 1, name :: names.issued⟩)

end NameSupply
end Dwarf2
