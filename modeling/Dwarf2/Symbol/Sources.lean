/-
The source files of a module.

A source is known by its place in a list of paths, and a map tells the source of a path.  What is
asked for is looked up in the map alone, and what is new is put into both.
-/
import Std.Data.TreeMap
import Dwarf2.Symbol

namespace Dwarf2
namespace Symbol

/-- Where the sources are kept. -/
structure SourceStore where
  /-- The paths of the sources, in the order of their identifiers. -/
  paths : Array String := #[]
  /-- The sources of the paths. -/
  ids : Std.TreeMap String SourceId := {}

namespace SourceStore

variable {s : SourceStore} {path other : String} {id : SourceId}

def path? (s : SourceStore) (id : SourceId) : Option String :=
  s.paths[id.index]?

def push (s : SourceStore) (path : String) : SourceStore where
  paths := s.paths.push path
  ids := s.ids.insert path ⟨s.paths.size⟩

/-- The source that the map has for a path, or else a new one behind the others. -/
def intern (s : SourceStore) (path : String) : SourceId × SourceStore :=
  match s.ids[path]? with
  | some id => (id, s)
  | none => (⟨s.paths.size⟩, s.push path)

theorem path?_push (s : SourceStore) (path : String) (id : SourceId) :
    (s.push path).path? id = if id.index = s.paths.size then some path else s.path? id :=
  Array.getElem?_push

theorem ids_push (s : SourceStore) (path other : String) :
    (s.push path).ids[other]? = if path = other then some ⟨s.paths.size⟩ else s.ids[other]? := by
  simp only [push, Std.TreeMap.getElem?_insert, Std.compare_eq_iff_eq]

/-- The list and the map are inverse to each other. -/
def Inverse (s : SourceStore) : Prop :=
  ∀ path id, s.ids[path]? = some id ↔ s.path? id = some path

theorem Inverse.empty : Inverse {} := by
  intro path id
  simp [path?]

/-- A path that is not in the map is nowhere in the list, and the place behind the others is that
of no path. -/
theorem Inverse.push (h : s.Inverse) (new : s.ids[path]? = none) : (s.push path).Inverse := by
  intro other id
  have nowhere : s.path? id ≠ some path := fun there => by
    rw [← h, new] at there
    cases there
  rw [ids_push, path?_push]
  by_cases last : id.index = s.paths.size
  · obtain ⟨i⟩ := id
    cases last
    have free : s.path? ⟨s.paths.size⟩ = none := Array.getElem?_size
    have unused : s.ids[other]? ≠ some ⟨s.paths.size⟩ := by
      rw [ne_eq, h, free]
      exact nofun
    simp [unused]
  · have apart : (⟨s.paths.size⟩ : SourceId) ≠ id := fun same => last (same ▸ rfl)
    rw [if_neg last]
    split
    · rename_i same
      subst same
      simp [apart, nowhere]
    · exact h other id

theorem Inverse.intern (h : s.Inverse) (path : String) : (s.intern path).2.Inverse := by
  unfold SourceStore.intern
  split
  · exact h
  · rename_i new
    exact h.push new

end SourceStore

/-- The sources of a module, which the list and the map tell alike. -/
structure Sources extends SourceStore where
  inverse : toSourceStore.Inverse := by exact .empty

def Sources.intern (s : Sources) (path : String) : SourceId × Sources :=
  let r := s.toSourceStore.intern path
  (r.1, { toSourceStore := r.2, inverse := s.inverse.intern path })

end Symbol
end Dwarf2
