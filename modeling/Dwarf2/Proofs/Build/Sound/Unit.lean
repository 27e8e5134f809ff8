/-
Resolvers are honest, and what a unit adds to a table is sound.

The slots of a unit start out empty, so they never tell any symbols but its own.
-/
import Dwarf2.Build.Root
import Dwarf2.Proofs.Build.Calls
import Dwarf2.Proofs.Build.Sound.Function

namespace Dwarf2
namespace Build

open Dwarf2.Symbol.Table (Inside)

variable {start : Symbol.Table} {own : List SymbolId} {s s' : State} {resolve : Resolver}
  {src : Source} {e : Entry}

theorem Sound.build (h : Sound start own s) (honest : Honest start resolve) {r : Option SymbolId}
    (eq : (Build.build src resolve e).run s = (r, s')) :
    Builds start own [] s s' ∧ s'.symbols.Inside r := by
  unfold Build.build at eq
  split at eq
  · obtain ⟨id, run, rfl⟩ := run_map_eq.1 eq
    exact h.buildBaseType run
  · obtain ⟨id, run, rfl⟩ := run_map_eq.1 eq
    exact h.buildTypedef honest run
  · obtain ⟨id, run, rfl⟩ := run_map_eq.1 eq
    exact h.buildPointer honest run
  · obtain ⟨id, run, rfl⟩ := run_map_eq.1 eq
    exact h.buildPointer honest run
  · obtain ⟨id, run, rfl⟩ := run_map_eq.1 eq
    exact h.buildAggregate honest run
  · obtain ⟨id, run, rfl⟩ := run_map_eq.1 eq
    exact h.buildAggregate honest run
  · obtain ⟨id, run, rfl⟩ := run_map_eq.1 eq
    exact h.buildAggregate honest run
  · exact h.buildArray honest eq
  · exact h.typeOf honest eq
  · exact h.typeOf honest eq
  · obtain ⟨id, run, rfl⟩ := run_map_eq.1 eq
    exact h.buildEnumeration run
  · exact h.buildSubprogram honest eq
  · obtain ⟨id, run, rfl⟩ := run_map_eq.1 eq
    exact h.buildSubroutineType honest run
  · obtain ⟨_, s₁, run, eq⟩ := run_bind_eq.1 eq
    cases eq
    exact ⟨h.buildVariable honest (.empty own {} _) run, .none _⟩
  · cases eq
    exact ⟨.refl h, .none _⟩

theorem Sound.answer (h : Sound start own s) {offset : Nat} {id r : Option SymbolId}
    (inside : s.symbols.Inside id) (eq : (Build.answer offset id).run s = (r, s')) :
    Builds start own [] s s' ∧ s'.symbols.Inside r := by
  cases eq
  exact ⟨h.note _, inside⟩

theorem honest_step {steps : Nat}
    (below : ∀ fewer, steps = fewer + 1 → Honest start (resolveWithin src fewer)) :
    Honest start (resolveWithin src steps) := by
  intro own offset s id s' h eq
  unfold resolveWithin at eq
  split at eq
  · exact h.answer (.none _) eq
  obtain ⟨_, _, ⟨⟩, eq⟩ := run_bind_eq.1 eq
  split at eq
  · rename_i known
    exact h.answer (h.slots offset _ (by rw [known]; rfl)) eq
  · rename_i id known
    refine h.answer ?_ eq
    cases id with
    | none => exact .none _
    | some id => exact h.slots offset _ (by rw [known]; rfl)
  cases steps with
  | zero =>
    obtain ⟨_, _, ⟨⟩, eq⟩ := run_bind_eq.1 eq
    cases eq
    exact ⟨h.note _, .none _⟩
  | succ steps =>
    obtain ⟨_, _, ⟨⟩, eq⟩ := run_bind_eq.1 eq
    obtain ⟨r, s₁, hbuild, eq⟩ := run_bind_eq.1 eq
    obtain ⟨_, _, ⟨⟩, eq⟩ := run_bind_eq.1 eq
    have marked : Builds start own [] s (s.mark offset (.pending none)) :=
      h.mark offset fun _ told => by cases told
    obtain ⟨built, inside⟩ := marked.sound.build (below steps rfl) hbuild
    have settled : Builds start own [] s₁ (s₁.mark offset (.resolved r)) :=
      built.sound.mark offset fun id told => by
        cases told
        exact inside
    obtain ⟨answered, there⟩ := settled.sound.answer inside eq
    exact ⟨((marked.trans built).trans settled).trans answered, there⟩

/-- However the references between the entries run, asking for one keeps the table sound. -/
theorem honest_resolveWithin (start : Symbol.Table) (src : Source) (steps : Nat) :
    Honest start (resolveWithin src steps) := by
  induction steps with
  | zero => exact honest_step nofun
  | succ steps ih =>
    refine honest_step fun fewer h => ?_
    cases h
    exact ih

/-! ## Units -/

/-- A builder that has not done anything answers for nothing. -/
theorem sound_new (symbols : Symbol.Table) (names : NameSupply) :
    Sound symbols [] { symbols, names } where
  table := .refl symbols
  slots offset id told := by
    rw [slot_new] at told
    cases told
  compiland := nofun

theorem Sound.buildUnit (h : Sound start [] s) {r : Except Error Root}
    (eq : (Build.buildUnit src).run s = (r, s')) : Builds start [] [] s s' := by
  unfold Build.buildUnit at eq
  dsimp only at eq
  split at eq
  · cases eq
    exact .refl h
  obtain ⟨name, s₁, hname, eq⟩ := run_bind_eq.1 eq
  obtain ⟨source, s₂, hsource, eq⟩ := run_bind_eq.1 eq
  obtain ⟨compiland, s₃, hcompiland, eq⟩ := run_bind_eq.1 eq
  obtain ⟨_, s₄, hroot, eq⟩ := run_bind_eq.1 eq
  obtain ⟨_, s₅, hnoted, eq⟩ := run_bind_eq.1 eq
  obtain ⟨_, s₆, hchildren, eq⟩ := run_bind_eq.1 eq
  cases eq
  have named : Builds start [] [] s s₁ := h.nameOf hname
  have interned : Builds start [] [] s₁ s₂ ∧ source.index < s₂.symbols.sources.size := by
    cases hsource
    exact ⟨named.sound.change (named.sound.table.intern _)
      (.internFile (Symbol.Within.refl _) _ _ _), Symbol.Table.intern_lt_size _ _⟩
  have pushed : Builds start [] [] s₂ s₃ ∧ s₃.symbols.Inside (some compiland) := by
    refine interned.1.sound.push hcompiland ⟨nofun, fun i hi => ?_, nofun, nofun, nofun⟩
      (.inl trivial)
    rw [List.mem_singleton.1 hi]
    exact interned.2
  have marked : Builds start [] [] s₃ s₄ := by
    cases hroot
    refine pushed.1.sound.mark _ fun id told => ?_
    cases told
    exact pushed.2
  have there : s₄.symbols.get? compiland = some (.compiland source) := by
    obtain ⟨hid, hs₃⟩ := of_run_push hcompiland
    cases hroot
    change s₃.symbols.get? compiland = _
    rw [hs₃, hid]
    exact Symbol.Table.get?_push_self _ _
  have known : Builds start [] [] s₄ s₅ := by
    cases hnoted
    refine ⟨⟨marked.sound.table, marked.sound.slots, fun id hid => ?_⟩, .refl _, .refl _⟩
    cases hid
    exact ⟨source, there⟩
  have children : Builds start [] [] s₅ s' := known.sound.forM hchildren
    fun child _ s₆ s₇ sofar run => by
      obtain ⟨id, s₈, resolved, run⟩ := run_bind_eq.1 run
      cases run
      exact (honest_resolveWithin start src _ [] _ _ _ _ sofar.sound resolved).1
  exact ((((named.trans interned.1).trans pushed.1).trans marked).trans known).trans children

end Build
end Dwarf2
