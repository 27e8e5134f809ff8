/-
The builders of types keep the table sound.
-/
import Dwarf2.Proofs.Build.Sound.Step

namespace Dwarf2
namespace Build

open Dwarf2.Symbol.Table (Inside)

variable {start : Symbol.Table} {own : List SymbolId} {s s' : State} {resolve : Resolver}
  {src : Source} {e : Entry} {id : SymbolId}

namespace Sound

theorem buildBaseType (h : Sound start own s) (eq : (Build.buildBaseType src e).run s = (id, s')) :
    Builds start own [] s s' ∧ s'.symbols.Inside (some id) := by
  obtain ⟨name, s₁, hname, eq⟩ := run_bind_eq.1 eq
  have named : Builds start own [] s s₁ := h.nameOf hname
  obtain ⟨pushed, inside⟩ := named.sound.push eq ⟨nofun, nofun, nofun, nofun, nofun⟩ (.inl trivial)
  exact ⟨named.trans pushed, inside⟩

theorem buildTypedef (h : Sound start own s) (honest : Honest start resolve)
    (eq : (Build.buildTypedef src resolve e).run s = (id, s')) :
    Builds start own [] s s' ∧ s'.symbols.Inside (some id) := by
  refine h.inPlace eq fun s₁ x s₂ sound run => ?_
  obtain ⟨name, s₃, hname, run⟩ := run_bind_eq.1 run
  obtain ⟨target, s₄, htarget, run⟩ := run_bind_eq.1 run
  cases run
  have named : Builds start (id :: own) [] s₁ s₃ := sound.nameOf hname
  obtain ⟨asked, inside⟩ := named.sound.typeOf honest htarget
  refine ⟨named.trans asked, ⟨fun i hi => inside i (Option.mem_toList.1 hi), nofun, nofun, nofun,
    nofun⟩, trivial⟩

theorem buildPointer (h : Sound start own s) (honest : Honest start resolve)
    (eq : (Build.buildPointer src resolve e).run s = (id, s')) :
    Builds start own [] s s' ∧ s'.symbols.Inside (some id) := by
  refine h.inPlace eq fun s₁ x s₂ sound run => ?_
  obtain ⟨target, s₃, htarget, run⟩ := run_bind_eq.1 run
  cases run
  obtain ⟨asked, inside⟩ := sound.typeOf honest htarget
  exact ⟨asked, ⟨fun i hi => inside i (Option.mem_toList.1 hi), nofun, nofun, nofun, nofun⟩,
    trivial⟩

theorem readBounds (h : Sound start own s) (honest : Honest start resolve)
    {c : Entry} {range range' : Subrange} (before : s.symbols.Inside range.index)
    (eq : (Build.readBounds src resolve range c).run s = (range', s')) :
    Builds start own [] s s' ∧ s'.symbols.Inside range'.index := by
  unfold Build.readBounds at eq
  split at eq
  · obtain ⟨type, s₁, htype, eq⟩ := run_bind_eq.1 eq
    cases eq
    exact h.typeOf honest htype
  · cases eq
    exact ⟨.refl h, before⟩

theorem buildArray (h : Sound start own s) (honest : Honest start resolve) {r : Option SymbolId}
    (eq : (Build.buildArray src resolve e).run s = (r, s')) :
    Builds start own [] s s' ∧ s'.symbols.Inside r := by
  unfold Build.buildArray at eq
  split at eq
  · cases eq
    exact ⟨.refl h, .none _⟩
  obtain ⟨id, placed, rfl⟩ := run_map_eq.1 eq
  refine h.inPlace placed fun s₁ x s₂ sound run => ?_
  obtain ⟨element, s₃, helement, run⟩ := run_bind_eq.1 run
  obtain ⟨range, s₄, hrange, run⟩ := run_bind_eq.1 run
  cases run
  obtain ⟨asked, element_inside⟩ := sound.typeOf honest helement
  obtain ⟨bounded, index_inside⟩ := run_foldlM
    (P := fun _ (range : Subrange) s₄ =>
      Builds start (id :: own) [] s₃ s₄ ∧ s₄.symbols.Inside range.index)
    hrange ⟨.refl asked.sound, .none _⟩ fun _ range c s₄ range' s₅ _ sofar run => by
      obtain ⟨more, inside⟩ := sofar.1.sound.readBounds honest sofar.2 run
      exact ⟨sofar.1.trans more, inside⟩
  refine ⟨asked.trans bounded, ⟨fun i hi => ?_, nofun, nofun, nofun, nofun⟩, trivial⟩
  rcases List.mem_append.1 hi with hi | hi
  · exact bounded.inside element_inside i (Option.mem_toList.1 hi)
  · exact index_inside i (Option.mem_toList.1 hi)

/-! ## Parts -/

theorem buildMember (h : Sound start own s) (honest : Honest start resolve) {c : Entry}
    (eq : (Build.buildMember src resolve id c).run s = ((), s')) : Builds start own [id] s s' := by
  obtain ⟨name, s₁, hname, eq⟩ := run_bind_eq.1 eq
  obtain ⟨type, s₂, htype, eq⟩ := run_bind_eq.1 eq
  obtain ⟨_, _, ⟨⟩, eq⟩ := run_bind_eq.1 eq
  have named : Builds start own [id] s s₁ := h.nameOf hname
  obtain ⟨asked, inside⟩ := named.sound.typeOf honest htype
  have mine := Symbol.Within.free (List.mem_singleton_self id)
  rw [of_run_change eq]
  exact (named.trans asked.within).trans
    (asked.sound.change (asked.sound.table.addMember id inside)
      (.addMember (Symbol.Within.refl _) mine _))

theorem buildContent (h : Sound start own s) (honest : Honest start resolve) {c : Entry}
    (eq : (Build.buildContent src resolve id c).run s = ((), s')) :
    Builds start own [id] s s' := by
  unfold Build.buildContent at eq
  split at eq
  · exact h.buildMember honest eq
  · obtain ⟨r, s₁, resolved, eq⟩ := run_bind_eq.1 eq
    cases eq
    exact (honest own _ _ _ _ h resolved).1.within
  · cases eq
    exact .refl h

theorem buildAggregate (h : Sound start own s) (honest : Honest start resolve)
    {kind : Symbol.AggregateKind}
    (eq : (Build.buildAggregate src resolve kind e).run s = (id, s')) :
    Builds start own [] s s' ∧ s'.symbols.Inside (some id) := by
  obtain ⟨name, s₁, hname, eq⟩ := run_bind_eq.1 eq
  have named : Builds start own [] s s₁ := h.nameOf hname
  obtain ⟨built, inside⟩ := named.sound.withParts eq ⟨nofun, nofun, nofun, nofun, nofun⟩ trivial
    fun s₂ sound run => sound.forM run fun c _ s₃ s₄ sofar run =>
      sofar.sound.buildContent honest run
  exact ⟨named.trans built, inside⟩

theorem buildEnumerator (h : Sound start own s) {c : Entry}
    (eq : (Build.buildEnumerator src id c).run s = ((), s')) : Builds start own [id] s s' := by
  unfold Build.buildEnumerator at eq
  split at eq
  · obtain ⟨name, s₁, hname, eq⟩ := run_bind_eq.1 eq
    have named : Builds start own [id] s s₁ := h.nameOf hname
    have mine := Symbol.Within.free (List.mem_singleton_self id)
    rw [of_run_change eq]
    exact named.trans (named.sound.change (named.sound.table.addEnumerator id _)
      (.addEnumerator (Symbol.Within.refl _) mine _))
  · cases eq
    exact .refl h

theorem buildEnumeration (h : Sound start own s)
    (eq : (Build.buildEnumeration src e).run s = (id, s')) :
    Builds start own [] s s' ∧ s'.symbols.Inside (some id) := by
  obtain ⟨name, s₁, hname, eq⟩ := run_bind_eq.1 eq
  have named : Builds start own [] s s₁ := h.nameOf hname
  obtain ⟨built, inside⟩ := named.sound.withParts eq ⟨nofun, nofun, nofun, nofun, nofun⟩ trivial
    fun s₂ sound run => sound.forM run fun c _ s₃ s₄ sofar run => sofar.sound.buildEnumerator run
  exact ⟨named.trans built, inside⟩

theorem buildParameterType (h : Sound start own s) (honest : Honest start resolve) {c : Entry}
    (eq : (Build.buildParameterType src resolve id c).run s = ((), s')) :
    Builds start own [id] s s' := by
  unfold Build.buildParameterType at eq
  split at eq
  · obtain ⟨type, s₁, htype, eq⟩ := run_bind_eq.1 eq
    obtain ⟨asked, inside⟩ := h.typeOf honest htype
    have mine := Symbol.Within.free (List.mem_singleton_self id)
    rw [of_run_change eq]
    exact asked.within.trans (asked.sound.change (asked.sound.table.addParameter id inside)
      (.addParameter (Symbol.Within.refl _) mine _))
  · cases eq
    exact .refl h

theorem holds_signature {t : Symbol.Table} {returnType : Option SymbolId}
    (inside : t.Inside returnType) : t.Holds (.signature { returnType }) := by
  refine ⟨fun i hi => ?_, nofun, nofun, nofun, nofun⟩
  simp only [Symbol.references, List.filterMap_nil, List.append_nil] at hi
  exact inside i (Option.mem_toList.1 hi)

theorem buildSubroutineType (h : Sound start own s) (honest : Honest start resolve)
    (eq : (Build.buildSubroutineType src resolve e).run s = (id, s')) :
    Builds start own [] s s' ∧ s'.symbols.Inside (some id) := by
  obtain ⟨type, s₁, htype, eq⟩ := run_bind_eq.1 eq
  obtain ⟨asked, returned⟩ := h.typeOf honest htype
  obtain ⟨built, inside⟩ := asked.sound.withParts eq (holds_signature returned) trivial
    fun s₂ sound run => sound.forM run fun c _ s₃ s₄ sofar run =>
      sofar.sound.buildParameterType honest run
  exact ⟨asked.trans built, inside⟩

end Sound
end Build
end Dwarf2
