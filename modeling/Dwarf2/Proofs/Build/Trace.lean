/-
What the run that has built an entry leaves behind for good.

An entry that is resolved in the end was built once, by a run that is known from its first
state to its last: `Grows.trace`.  The symbols of that run have not changed since, so whatever
is seen of them in the last state of the run holds when all calls have returned.
-/
import Dwarf2.Proofs.Build.Reference

namespace Dwarf2
namespace Build

variable {src : Source} {start s s₁ s₂ : State} {e : Entry}

/-- Where two symbols stand there is one. -/
theorem Stands.unique {new new' : SymbolId → Prop} {r : Option SymbolId} {x y : Symbol}
    (h : Stands new s r x) (h' : Stands new' s r y) : x = y := by
  obtain ⟨id, -, rfl, hx⟩ := h
  obtain ⟨_, -, ⟨⟩, hy⟩ := h'
  exact Option.some.inj (hx.symm.trans hy)

/-- What is stored for the type of entry `c` in the symbol of `owner`, be there a type or not,
when nothing is at work. -/
structure Stores (src : Source) (s : State) (owner c : Entry) (stored : Option SymbolId) :
    Prop where
  untyped : (∀ target, c.reference? src.view .type = some target → src.tree.get? target = none) →
    stored = none
  keeps : Keeps src s owner c stored

theorem Grows.stores (h : Grows src {} start s) (fresh : ∀ offset, slot start offset = .unresolved)
    {c : Entry} {stored : Option SymbolId} (refers : Refers src s e c stored) :
    Stores src s e c stored where
  untyped none := by
    cases href : c.reference? src.view .type with
    | none => simpa only [Refers, href] using refers
    | some target => simpa only [Refers, href, none target href] using refers
  keeps target d href hd ne := by
    simp only [Refers, href, hd] at refers
    obtain ⟨asked, found, followed, told, lost⟩ := refers ne
    obtain ⟨r, hr⟩ := (h.idle fresh target).resolve_left asked
    refine ⟨found, r, followed, hr, fun known => ?_, fun unknown => ?_⟩
    · have same := told known
      rw [hr] at same
      exact (Option.some.inj same).symm
    · obtain ⟨nothing, awaits⟩ := lost unknown
      refine ⟨nothing, fun named => awaits.resolve_left fun never => named ?_⟩
      exact (h.described target d r hd ⟨fresh target, hr⟩).eq_none_of_neverNamed never

/-- The entry was built between the two states, and what was built then stands. -/
structure Trace (src : Source) (start : State) (e : Entry) (r : Option SymbolId)
    (s₁ s₂ s : State) : Prop where
  runs : Runs src e s₁ s₂ r
  size_le : start.symbols.size ≤ s₁.symbols.size
  lasts : Lasts src [] s₁ s₂ s

theorem Grows.trace (h : Grows src {} start s) (fresh : ∀ offset, slot start offset = .unresolved)
    {offset : Nat} {r : Option SymbolId} (he : src.tree.get? offset = some e)
    (tag : e.tag ≠ .compileUnit) (resolved : slot s offset = .resolved r) :
    ∃ s₁ s₂, Trace src start e r s₁ s₂ s := by
  obtain ⟨s₁, s₂, runs, le, lasts⟩ := h.traced offset e r he tag ⟨fresh offset, resolved⟩
  exact ⟨s₁, s₂, runs, le, lasts⟩

namespace Trace

variable {r : Option SymbolId}

theorem kept (h : Trace src start e r s₁ s₂ s) (id : SymbolId) (x : Symbol)
    (new : New [] s₁ s₂ id) (hx : s₂.symbols.get? id = some x) :
    s.symbols.get? id = some x ∧ start.symbols.size ≤ id.index :=
  ⟨(h.lasts.kept id new.1 new.2.1).trans hx, Nat.le_trans h.size_le new.1⟩

theorem stands (h : Trace src start e r s₁ s₂ s) {own : List SymbolId} {id : SymbolId} {x : Symbol}
    (exposed : AtWork.Exposed src e own s₁ s₂ id x) :
    Stands (start.symbols.size ≤ ·.index) s (some id) x :=
  exposed.stands.imp h.kept

/-- What was stored for a type in the run. -/
theorem stores (h : Trace src start e r s₁ s₂ s) (grows : Grows src {} start s)
    (fresh : ∀ offset, slot start offset = .unresolved) (c : Entry) (stored : Option SymbolId)
    (refers : Refers src s₂ e c stored) : Stores src s e c stored :=
  grows.stores fresh (refers.later h.lasts.later)

end Trace

/-- A single call, with as many steps as there are entries. -/
theorem after_resolve {size : Nat} (h : src.tree.size = size) (symbols : Symbol.Table)
    (names : NameSupply) (offset : Nat) : after src symbols names [.resolve offset] =
      ((resolveWithin src size offset).run { symbols, names }).2 := by
  subst h
  rfl

end Build
end Dwarf2
