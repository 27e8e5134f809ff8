/-
Doing the same to a table once more.

A path that is among the sources has its place there for good, and a line that has been given to
the function at its address is not given again.  Both stay so whatever other paths and lines come
in between.  That a line is found again needs the lines of functions to be in order: the place of
a fact is looked for only among those that do not start later.
-/
import Dwarf2.Proofs.Symbol.Attachment

namespace Dwarf2
namespace Symbol
namespace Table

variable {t u : Table} {id : SymbolId} {f : Function} {source : SourceId} {line address : UInt64}

/-! ## Paths -/

theorem source?_mono {path : String} (grows : t.sources.toList <+: u.sources.toList)
    (there : t.source? source = some path) : u.source? source = some path := by
  have there : t.sources[source.index]? = some path := there
  show u.sources[source.index]? = some path
  rw [← Array.getElem?_toList] at there ⊢
  obtain ⟨inside, rfl⟩ := List.getElem?_eq_some_iff.1 there
  rw [List.getElem?_eq_getElem (Nat.lt_of_lt_of_le inside grows.length_le)]
  exact congrArg some (grows.getElem inside).symm

/-- A path keeps its place, and asking for it again adds none. -/
theorem intern_again (path : String)
    (grows : (t.intern path).2.sources.toList <+: u.sources.toList) :
    u.intern path = ((t.intern path).1, u) :=
  intern_of_source? (source?_mono grows (t.source?_intern path))

/-! ## Lines -/

/-- In every function the lines are in the order of their offsets. -/
def Ordered (t : Table) : Prop :=
  ∀ id f, t.get? id = some (.function f) → Ascending f.lines

/-- The line is not given to any function.  Either there is none for it, or that one has it. -/
def Settled (t : Table) (source : SourceId) (line address : UInt64) : Prop :=
  t.addLine source line address = (false, t)

theorem WellFormed.ordered (h : t.WellFormed) : t.Ordered :=
  fun id _ there => ((h.symbols id _ there).1.function _ rfl).lines

theorem Ordered.addLine (h : t.Ordered) (source : SourceId) (line address : UInt64) :
    (t.addLine source line address).2.Ordered := by
  intro id g there
  rcases t.addLine_cases source line address with same | ⟨id', f, lines, -, here, -, inserted, eq⟩
  · rw [same] at there
    exact h id g there
  rw [eq] at there
  by_cases hit : id = id'
  · subst hit
    cases (get?_updateFunction here _).symm.trans there
    exact pairwise_insertLine? inserted (h _ f here)
  · exact h id g ((get?_update_of_ne t _ hit).symm.trans there)

/-- A line is settled when the function that it is for has it. -/
theorem settled_iff (h : t.Ordered) :
    t.Settled source line address ↔
      ∀ id f, t.nearest? address = some id → t.get? id = some (.function f) →
        f.covers address = true → ⟨source, line, address - f.address⟩ ∈ f.lines := by
  constructor
  · intro settled id f nearest there covers
    rw [Settled, addLine_of_nearest nearest there covers] at settled
    split at settled
    · cases settled
    · rename_i none
      exact (insertLine?_eq_none_iff (h id f there)).1 none
  · intro held
    rcases t.addLine_cases source line address with
      same | ⟨id, f, lines, nearest, there, covers, inserted, -⟩
    · exact same
    · have held := held id f nearest there covers
      rw [(insertLine?_eq_none_iff (h id f there)).2 held] at inserted
      cases inserted

/-- Once it has been given, a line is settled. -/
theorem settled_addLine (h : t.Ordered) (source : SourceId) (line address : UInt64) :
    (t.addLine source line address).2.Settled source line address := by
  have ordered := h.addLine source line address
  rcases t.addLine_cases source line address with
    same | ⟨id, f, lines, nearest, there, -, inserted, eq⟩
  · rw [same]
    exact same
  rw [eq] at ordered ⊢
  refine (settled_iff ordered).2 fun id' g nearest' there' _ => ?_
  cases nearest.symm.trans nearest'
  cases (get?_updateFunction there _).symm.trans there'
  exact (mem_insertLine? inserted _).2 (.inl rfl)

/-- And it stays settled while other lines are given. -/
theorem Settled.addLine (h : t.Ordered) (settled : t.Settled source line address)
    (source' : SourceId) (line' address' : UInt64) :
    (t.addLine source' line' address').2.Settled source line address := by
  have ordered := h.addLine source' line' address'
  rcases t.addLine_cases source' line' address' with
    same | ⟨id, f, lines, -, there, -, inserted, eq⟩
  · rw [same]
    exact settled
  rw [eq] at ordered ⊢
  have held := (settled_iff h).1 settled
  refine (settled_iff ordered).2 fun id' g nearest there' covers => ?_
  by_cases hit : id' = id
  · subst hit
    cases (get?_updateFunction there _).symm.trans there'
    exact (mem_insertLine? inserted _).2 (.inr (held id' f nearest there covers))
  · exact held id' g nearest ((get?_update_of_ne t _ hit).symm.trans there') covers

end Table
end Symbol
end Dwarf2
