/-
How far a walk along types is settled while the table grows.

Where a walk goes on from a symbol, and what size a symbol says, does not change once the symbol is
there.  So the length of a type stays what it is: `typeLength?_develop`.  There is one exception.
A walk that stops at a vacant place has no length yet, and may have one when the place is filled.
-/
import Dwarf2.Proofs.Symbol.Growth
import Dwarf2.Proofs.Symbol.Length

namespace Dwarf2
namespace Symbol

/-- Where a walk along types goes on. -/
def next? : Symbol → Option SymbolId
  | typedef d => d.target
  | array a => a.element
  | _ => none

/-- The symbol is not a place, and no walk goes on from it. -/
def Still (x : Symbol) : Prop :=
  x ≠ .placeholder ∧ x.next? = none

namespace Develops

variable {x y : Symbol}

theorem of_ne_placeholder_of_next (h : x.Develops y) (ne : x ≠ .placeholder)
    (next : y.next? ≠ none) : y = x := by
  cases h with
  | same => rfl
  | fill => exact absurd rfl ne
  | aggregate | enumeration | signature | function => exact absurd rfl next

theorem placeholder_of_placeholder (h : x.Develops .placeholder) : x = .placeholder := by
  cases h <;> rfl

theorem ownSize?_eq (h : x.Develops y) (ne : x ≠ .placeholder) : y.ownSize? = x.ownSize? := by
  cases h with
  | fill => exact absurd rfl ne
  | same | aggregate | enumeration | signature | function => rfl

end Develops

namespace Table

variable {t u : Table} {id next last : SymbolId} {n : Nat} {counts : List Nat}

theorem Hop.exists_next (h : t.Hop id n next) :
    ∃ x, t.get? id = some x ∧ x.next? = some next := by
  cases h with
  | typedef here target => exact ⟨_, here, target⟩
  | array here element => exact ⟨_, here, element⟩

theorem Hop.congr (h : t.Hop id n next) (same : u.get? id = t.get? id) : u.Hop id n next := by
  cases h with
  | typedef here target => exact .typedef (same.trans here) target
  | array here element => exact .array (same.trans here) element

/-! ## Tables that grow -/

/-- There is no symbol yet, or only a place for one. -/
def Vacant (t : Table) (id : SymbolId) : Prop :=
  t.get? id = none ∨ t.get? id = some .placeholder

section Develop

variable (grows : t.Extends (fun _ => Develops) u)
include grows

theorem Hop.develop (h : t.Hop id n next) : u.Hop id n next := by
  obtain ⟨x, here, goes⟩ := h.exists_next
  obtain ⟨y, there, develops⟩ := grows.symbols id x here
  refine h.congr ?_
  cases develops with
  | same => rw [here, there]
  | fill | aggregate | enumeration | signature | function => cases goes

theorem Walk.develop (h : t.Walk id counts last) : u.Walk id counts last := by
  induction h with
  | stay id => exact .stay id
  | hop first _ ih => exact .hop (first.develop grows) ih

theorem Ends.develop {size : UInt64} (h : t.Ends id counts size) : u.Ends id counts size := by
  obtain ⟨last, x, walk, here, own⟩ := h
  obtain ⟨y, there, develops⟩ := grows.symbols last x here
  refine ⟨last, y, walk.develop grows, there, ?_⟩
  rw [develops.ownSize?_eq (by rintro rfl; cases own), own]

theorem Circles.develop (h : t.Circles id) : u.Circles id := by
  obtain ⟨round, nonempty, circle⟩ := h
  exact ⟨round, nonempty, circle.develop grows⟩

/-- A dead end stays one, unless it is a place that is filled. -/
theorem DeadEnd.develop (h : t.DeadEnd id) : u.DeadEnd id ∨ t.Vacant id := by
  cases h with
  | missing absent => exact .inr (.inl absent)
  | typedef here absent =>
    obtain ⟨y, there, develops⟩ := grows.symbols id _ here
    cases develops
    exact .inl (.typedef there absent)
  | array here absent =>
    obtain ⟨y, there, develops⟩ := grows.symbols id _ here
    cases develops
    exact .inl (.array there absent)
  | @other x here sizeless typedef array =>
    by_cases place : x = .placeholder
    · exact .inr (.inr (place ▸ here))
    obtain ⟨y, there, develops⟩ := grows.symbols id _ here
    refine .inl (.other there (by rw [develops.ownSize?_eq place, sizeless]) ?_ ?_)
    · rintro d rfl
      cases develops with
      | same => exact typedef d rfl
      | fill => exact place rfl
    · rintro a rfl
      cases develops with
      | same => exact array a rfl
      | fill => exact place rfl

/-- The length of a type is settled, unless the walk to it stops at a vacant place. -/
theorem typeLength?_develop (id : SymbolId) : u.typeLength? id = t.typeLength? id ∨
    t.typeLength? id = none ∧ ∃ counts last, t.Walk id counts last ∧ t.Vacant last := by
  cases found : t.typeLength? id with
  | some length =>
    obtain ⟨counts, size, ends, value⟩ := typeLength?_eq_some_iff.1 found
    exact .inl (typeLength?_eq_some_iff.2 ⟨counts, size, ends.develop grows, value⟩)
  | none =>
    obtain ⟨counts, last, walk, dead | circle⟩ := typeLength?_eq_none_iff.1 found
    · rcases dead.develop grows with dead | vacant
      · exact .inl (typeLength?_eq_none_iff.2 ⟨counts, last, walk.develop grows, .inl dead⟩)
      · exact .inr ⟨rfl, counts, last, walk, vacant⟩
    · exact .inl (typeLength?_eq_none_iff.2
        ⟨counts, last, walk.develop grows, .inr (circle.develop grows)⟩)

end Develop

end Table
end Symbol
end Dwarf2
