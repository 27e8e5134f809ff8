/-
The sources of a table.

Naming a file is the one thing that adds to them, and what it adds is a path that is not among
them yet.  So a source has one path and a path one source, and both stay so: `sources_after`.  The
list of the paths and the map of their sources come about by the names alone, and whatever is done
to the table in between, each tells what the other does.
-/
import Dwarf2.Proofs.Symbol.Operation
import Dwarf2.Proofs.Symbol.Repetition

namespace Dwarf2
namespace Symbol
namespace Table

variable {t u : Table} {id : SourceId} {path : String}

/-! ## A path -/

theorem mem_sources_intern (t : Table) (path other : String) :
    other ∈ (t.intern path).2.sources ↔ other = path ∨ other ∈ t.sources := by
  rcases t.intern_cases path with ⟨source, there, eq⟩ | ⟨-, -, sources⟩
  · have mem : path ∈ t.sources := mem_sources_iff.2 ⟨source, there⟩
    rw [eq]
    exact ⟨.inr, fun known => known.elim (fun same => same ▸ mem) id⟩
  · rw [sources, Array.mem_push, or_comm]

/-- The map has one source for a path. -/
theorem source?_inj {id' : SourceId} (there : t.source? id = some path)
    (there' : t.source? id' = some path) : id = id' :=
  Option.some.inj (((t.interned.inverse path id).2 there).symm.trans
    ((t.interned.inverse path id').2 there'))

theorem nodup_sources (t : Table) : t.sources.toList.Nodup := by
  have there {i : Nat} (inside : i < t.sources.toList.length) :
      t.source? ⟨i⟩ = some t.sources.toList[i] := by
    show t.sources[i]? = _
    rw [← Array.getElem?_toList, List.getElem?_eq_getElem inside]
  refine List.pairwise_iff_getElem.2 fun i j inside inside' before same => ?_
  have again := source?_inj (there inside) (same ▸ there inside')
  exact Nat.ne_of_lt before (congrArg SourceId.index again)

/-! ## Any operations -/

/-- The path of the file that the operation names. -/
def Operation.path? : Operation → Option String
  | internFile directory name => some (Path.ofFile directory name)
  | _ => none

theorem interned_place (t : Table) (id : SymbolId) (x : Symbol) :
    (t.place id x).interned = t.interned := by
  unfold place
  split <;> rfl

theorem interned_perform (t : Table) (op : Operation) :
    (op.perform t).interned =
      op.path?.elim t.interned fun path => (t.interned.intern path).2 := by
  cases op with
  | internFile directory name => rfl
  | fill id x =>
    show (t.fill id x).interned = t.interned
    unfold fill
    split
    · exact interned_place _ id x
    · rfl
  | openBlock id b =>
    show (t.openBlock id b).2.interned = t.interned
    unfold openBlock
    split <;> rfl
  | addLine source line address =>
    show (t.addLine source line address).2.interned = t.interned
    rcases t.addLine_cases source line address with same | ⟨_, _, _, -, -, -, -, added⟩
    · rw [same]
    · rw [added]
      rfl
  | addMember | addEnumerator | addParameter | addLocal | addDetached | addLabel | normalize |
    offer => rfl
  | _ => exact interned_place _ _ _

/-- Only the paths that are named come into the list and into the map. -/
theorem interned_after (t : Table) (operations : List Operation) :
    (t.after operations).interned.toSourceStore =
      (operations.filterMap Operation.path?).foldl (fun s path => (s.intern path).2)
        t.interned.toSourceStore := by
  induction operations generalizing t with
  | nil => rfl
  | cons op rest ih =>
    show ((op.perform t).after rest).interned.toSourceStore = _
    rw [ih, interned_perform]
    cases named : op.path? with
    | none => rw [List.filterMap_cons_none named, Option.elim_none]
    | some path =>
      rw [List.filterMap_cons_some named, List.foldl_cons, Option.elim_some]
      rfl

theorem sources_prefix_perform (t : Table) (op : Operation) :
    t.sources.toList <+: (op.perform t).sources.toList := by
  rw [sources, sources, interned_perform]
  cases op.path? with
  | none => exact List.prefix_refl _
  | some path => exact (Extends.intern (R := fun _ => Gains) (fun _ => .same) t path).sources

theorem sources_prefix_after (t : Table) (operations : List Operation) :
    t.sources.toList <+: (t.after operations).sources.toList :=
  after_induction (P := fun u => t.sources.toList <+: u.sources.toList)
    (fun u op sofar => sofar.trans (sources_prefix_perform u op)) (List.prefix_refl _) operations

/-- One of the operations on the table named the file of the path and was answered with the
source. -/
def Answered (t : Table) (operations : List Operation) (id : SourceId) (path : String) : Prop :=
  ∃ before directory name behind, operations = before ++ .internFile directory name :: behind ∧
    Path.ofFile directory name = path ∧
    ((t.after before).internFile directory name).1 = id

theorem Answered.source?_eq {operations : List Operation} (answered : Answered t operations id path)
    (more : List Operation) : ((t.after operations).after more).source? id = some path := by
  obtain ⟨before, directory, name, behind, rfl, rfl, rfl⟩ := answered
  rw [← after_append, List.append_assoc, after_append]
  exact source?_mono (sources_prefix_after _ (behind ++ more)) (source?_intern _ _)

/-- However a table is used, two answers are the same source if and only if they were given for the
same path, no path is there twice, an answer has its path for good, and naming a file by the path
of a source gives that source and leaves the table as it is.  The list of the paths and the map of
their sources are what naming the files one after another makes of them, and they stay inverse to
each other. -/
theorem sources_after (operations : List Operation) :
    let t := ({} : Table).after operations
    (∀ id path id' path', Answered {} operations id path → Answered {} operations id' path' →
      (id = id' ↔ path = path')) ∧
    t.sources.toList.Nodup ∧
    (∀ id path, Answered {} operations id path → ∀ more, (t.after more).source? id = some path) ∧
    (∀ id path, t.source? id = some path → t.internFile none path = (id, t)) ∧
    t.interned.toSourceStore =
      (operations.filterMap Operation.path?).foldl (fun s path => (s.intern path).2) {} ∧
    ∀ path id, t.interned.ids[path]? = some id ↔ t.source? id = some path := by
  intro t
  refine ⟨fun id path id' path' answered answered' => ?_, t.nodup_sources,
    fun id path answered => answered.source?_eq, fun id path there => intern_of_source? there,
    interned_after {} operations, t.interned.inverse⟩
  have place : t.source? id = some path := answered.source?_eq []
  have place' : t.source? id' = some path' := answered'.source?_eq []
  constructor
  · rintro rfl
    exact Option.some.inj (place.symm.trans place')
  · rintro rfl
    exact source?_inj place place'

end Table
end Symbol
end Dwarf2
