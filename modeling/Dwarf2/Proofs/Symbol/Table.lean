/-
What the operations on a symbol table do to the symbols in it.

Every operation either puts a symbol behind all others or changes a single one, so each is
told by what `get?` and `size` say after it.
-/
import Dwarf2.Symbol.Table

namespace Dwarf2
namespace Symbol
namespace Table

variable {t : Table} {id other : SymbolId}

theorem lt_size_of_get? {x : Symbol} (h : t.get? id = some x) : id.index < t.size :=
  (Array.getElem?_eq_some_iff.1 h).1

theorem get?_of_function? {f : Function} (h : t.function? id = some f) :
    t.get? id = some (.function f) := by
  unfold function? at h
  split at h
  · rename_i found
    cases h
    exact found
  · cases h

/-! ## A symbol more -/

@[simp] theorem symbols_place (t : Table) (id : SymbolId) (x : Symbol) :
    (t.place id x).symbols = t.symbols := by
  unfold place
  split <;> rfl

@[simp] theorem get?_place (t : Table) (id other : SymbolId) (x : Symbol) :
    (t.place id x).get? other = t.get? other := by
  simp only [get?, symbols_place]

@[simp] theorem size_place (t : Table) (id : SymbolId) (x : Symbol) :
    (t.place id x).size = t.size := by
  simp only [size, symbols_place]

@[simp] theorem size_push (t : Table) (x : Symbol) : (t.push x).2.size = t.size + 1 := by
  simp [push, size]

theorem get?_push (t : Table) (x : Symbol) (id : SymbolId) :
    (t.push x).2.get? id = if id.index = t.size then some x else t.get? id := by
  simp only [push, get?, symbols_place, Array.getElem?_push]
  rfl

theorem get?_push_self (t : Table) (x : Symbol) : (t.push x).2.get? ⟨t.size⟩ = some x := by
  simp [get?_push]

theorem get?_push_of_ne (x : Symbol) (h : id ≠ ⟨t.size⟩) : (t.push x).2.get? id = t.get? id := by
  have apart : id.index ≠ t.size := fun same => h (by cases id; cases same; rfl)
  simp [get?_push, apart]

/-! ## A file named -/

@[simp] theorem symbols_internFile (t : Table) (directory : Option String) (name : String) :
    (t.internFile directory name).2.symbols = t.symbols :=
  rfl

theorem mem_sources_iff {path : String} :
    path ∈ t.sources ↔ ∃ source, t.source? source = some path := by
  rw [Array.mem_iff_getElem?]
  exact ⟨fun ⟨i, there⟩ => ⟨⟨i⟩, there⟩, fun ⟨source, there⟩ => ⟨source.index, there⟩⟩

/-- A path is among the sources and the table stays as it is, or it comes behind them. -/
theorem intern_cases (t : Table) (path : String) :
    (∃ source, t.source? source = some path ∧ t.intern path = (source, t)) ∨
      path ∉ t.sources ∧ (t.intern path).1 = ⟨t.sources.size⟩ ∧
        (t.intern path).2.sources = t.sources.push path := by
  have inverse := t.interned.inverse path
  cases place : t.interned.ids[path]? with
  | some source =>
    have known : t.interned.toSourceStore.intern path = (source, t.interned.toSourceStore) := by
      rw [SourceStore.intern, place]
    refine .inl ⟨source, (inverse source).1 place, ?_⟩
    simp only [intern, Sources.intern, known]
  | none =>
    have new : t.interned.toSourceStore.intern path =
        (⟨t.sources.size⟩, t.interned.toSourceStore.push path) := by
      rw [SourceStore.intern, place]
      rfl
    refine .inr ⟨fun mem => ?_, congrArg Prod.fst new, congrArg (·.2.paths) new⟩
    obtain ⟨source, there⟩ := mem_sources_iff.1 mem
    rw [(inverse source).2 there] at place
    cases place

theorem intern_of_source? {source : SourceId} {path : String}
    (there : t.source? source = some path) : t.intern path = (source, t) := by
  rcases t.intern_cases path with ⟨other, there', eq⟩ | ⟨new, -⟩
  · have inverse := t.interned.inverse path
    rw [eq, Option.some.inj (((inverse other).2 there').symm.trans ((inverse source).2 there))]
  · exact absurd (mem_sources_iff.2 ⟨source, there⟩) new

theorem source?_intern (t : Table) (path : String) :
    (t.intern path).2.source? (t.intern path).1 = some path := by
  rcases t.intern_cases path with ⟨source, there, eq⟩ | ⟨-, id, sources⟩
  · rw [eq]
    exact there
  · rw [id]
    show (t.intern path).2.sources[t.sources.size]? = some path
    rw [sources]
    exact Array.getElem?_push_size

/-! ## A symbol changed -/

@[simp] theorem size_update (t : Table) (id : SymbolId) (f : Symbol → Symbol) :
    (t.update id f).size = t.size := by
  simp [update, size]

theorem get?_update_self (t : Table) (id : SymbolId) (f : Symbol → Symbol) :
    (t.update id f).get? id = (t.get? id).map f := by
  simp [update, get?, Array.getElem?_modify]

theorem get?_update_of_ne (t : Table) (f : Symbol → Symbol) (h : other ≠ id) :
    (t.update id f).get? other = t.get? other := by
  have apart : id.index ≠ other.index := fun same => h (by cases id; cases other; cases same; rfl)
  simp [update, get?, Array.getElem?_modify, apart]

@[simp] theorem size_fill (t : Table) (id : SymbolId) (x : Symbol) :
    (t.fill id x).size = t.size := by
  unfold fill
  split <;> simp

theorem get?_fill_of_ne (t : Table) (x : Symbol) (h : other ≠ id) :
    (t.fill id x).get? other = t.get? other := by
  unfold fill
  split
  · rw [get?_place, get?_update_of_ne _ _ h]
  · rfl

theorem get?_fill_self {x : Symbol} (h : t.get? id = some .placeholder) :
    (t.fill id x).get? id = some x := by
  unfold fill
  rw [h]
  simp only [get?_place, get?_update_self, h, Option.map_some]

/-- The operations that change one symbol, or none at all.  None of them makes a place empty
again. -/
structure Touches (id : SymbolId) (t u : Table) : Prop where
  size_eq : u.size = t.size
  get?_eq : ∀ other, other ≠ id → u.get? other = t.get? other
  filled : u.get? id = some .placeholder → t.get? id = some .placeholder

theorem Touches.update {f : Symbol → Symbol} (hf : ∀ x, f x = .placeholder → x = .placeholder)
    (t : Table) (id : SymbolId) : Touches id t (t.update id f) := by
  refine ⟨size_update t id f, fun _ h => get?_update_of_ne t f h, fun h => ?_⟩
  rw [get?_update_self, Option.map_eq_some_iff] at h
  obtain ⟨x, hx, h⟩ := h
  rw [hx, hf x h]

theorem Touches.fill (x : Symbol) (t : Table) (id : SymbolId) :
    Touches id t (t.fill id x) := by
  refine ⟨size_fill t id x, fun _ h => get?_fill_of_ne t x h, fun h => ?_⟩
  by_cases empty : t.get? id = some .placeholder
  · exact empty
  · unfold Table.fill at h
    split at h
    · contradiction
    · exact h

theorem Touches.updateFunction (f : Function → Function) (t : Table) (id : SymbolId) :
    Touches id t (t.updateFunction id f) :=
  .update (fun x h => by cases x <;> first | rfl | cases h) t id

theorem Touches.addMember (m : Member) (t : Table) (id : SymbolId) :
    Touches id t (t.addMember id m) :=
  .update (fun x h => by cases x <;> first | rfl | cases h) t id

theorem Touches.addEnumerator (e : Enumerator) (t : Table) (id : SymbolId) :
    Touches id t (t.addEnumerator id e) :=
  .update (fun x h => by cases x <;> first | rfl | cases h) t id

theorem Touches.addParameter (type : Option SymbolId) (t : Table) (id : SymbolId) :
    Touches id t (t.addParameter id type) :=
  .update (fun x h => by cases x <;> first | rfl | cases h) t id

/-! ## Parts -/

theorem get?_addMember {a : Aggregate} (h : t.get? id = some (.aggregate a)) (m : Member) :
    (t.addMember id m).get? id = some (.aggregate { a with members := a.members.push m }) := by
  rw [addMember, get?_update_self, h]
  rfl

theorem get?_addEnumerator {e : Enumeration} (h : t.get? id = some (.enumeration e))
    (v : Enumerator) :
    (t.addEnumerator id v).get? id =
      some (.enumeration { e with enumerators := e.enumerators.push v }) := by
  rw [addEnumerator, get?_update_self, h]
  rfl

theorem get?_addParameter {g : Signature} (h : t.get? id = some (.signature g))
    (type : Option SymbolId) :
    (t.addParameter id type).get? id =
      some (.signature { g with parameters := g.parameters.push type }) := by
  rw [addParameter, get?_update_self, h]
  rfl

theorem get?_updateFunction {f : Function} (h : t.get? id = some (.function f))
    (g : Function → Function) : (t.updateFunction id g).get? id = some (.function (g f)) := by
  rw [updateFunction, get?_update_self, h]
  rfl

end Table
end Symbol
end Dwarf2
