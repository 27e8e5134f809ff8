/-
The symbols that lie in memory, in the order of their addresses.

The index answers which symbol starts nearest before an address.  It is a list with the
last address first, and the type keeps it in order.
-/
import Dwarf2.Symbol

namespace Dwarf2
namespace Symbol

/-- A symbol and the address it starts at. -/
structure Placed where
  address : UInt64
  id : SymbolId
deriving DecidableEq, Repr

namespace Placed

/-- Symbols at one address are in the order of their identifiers. -/
def Before (a b : Placed) : Prop :=
  a.address < b.address ∨ a.address = b.address ∧ a.id.index < b.id.index

instance (a b : Placed) : Decidable (a.Before b) :=
  inferInstanceAs (Decidable (_ ∨ _))

theorem Before.trans {a b c : Placed} (hab : a.Before b) (hbc : b.Before c) : a.Before c := by
  unfold Before at *
  simp only [UInt64.lt_iff_toNat_lt, ← UInt64.toNat_inj] at *
  omega

theorem before_of_not {a b : Placed} (h : ¬a.Before b) (ne : a ≠ b) : b.Before a := by
  obtain ⟨x, ⟨i⟩⟩ := a
  obtain ⟨y, ⟨j⟩⟩ := b
  simp only [Before, ne_eq, Placed.mk.injEq, SymbolId.mk.injEq, UInt64.lt_iff_toNat_lt,
    ← UInt64.toNat_inj] at *
  omega

end Placed

/-- Puts a symbol in its place in a list with the last first. -/
def insertPlaced (p : Placed) : List Placed → List Placed
  | [] => [p]
  | q :: rest =>
    if q = p then q :: rest
    else if q.Before p then p :: q :: rest
    else q :: insertPlaced p rest

theorem mem_insertPlaced {p a : Placed} {placed : List Placed} :
    a ∈ insertPlaced p placed ↔ a = p ∨ a ∈ placed := by
  induction placed with
  | nil => simp [insertPlaced]
  | cons q rest ih =>
    unfold insertPlaced
    split
    · rename_i h
      simp [h]
    · split
      · simp
      · simp [ih, or_left_comm]

theorem pairwise_insertPlaced (p : Placed) {placed : List Placed}
    (h : placed.Pairwise fun a b => b.Before a) :
    (insertPlaced p placed).Pairwise fun a b => b.Before a := by
  induction placed with
  | nil => simp [insertPlaced]
  | cons q rest ih =>
    obtain ⟨hq, hrest⟩ := List.pairwise_cons.1 h
    unfold insertPlaced
    split
    · exact h
    · rename_i ne
      split
      · rename_i before
        refine List.pairwise_cons.2 ⟨fun a ha => ?_, h⟩
        rcases List.mem_cons.1 ha with rfl | ha
        · exact before
        · exact (hq a ha).trans before
      · rename_i notBefore
        refine List.pairwise_cons.2 ⟨fun a ha => ?_, ih hrest⟩
        rcases mem_insertPlaced.1 ha with rfl | ha
        · exact Placed.before_of_not notBefore ne
        · exact hq a ha

structure AddressIndex where
  placed : List Placed := []
  descending : placed.Pairwise fun a b => b.Before a := by exact .nil

namespace AddressIndex

def insert (index : AddressIndex) (p : Placed) : AddressIndex :=
  ⟨insertPlaced p index.placed, pairwise_insertPlaced p index.descending⟩

/-- The last symbol that starts at or before the address. -/
def nearest? (index : AddressIndex) (address : UInt64) : Option SymbolId :=
  (index.placed.find? (·.address ≤ address)).map Placed.id

end AddressIndex
end Symbol
end Dwarf2
