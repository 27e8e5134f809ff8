/-
Resolvers serve, and a builder at rest is ready.

An entry is put to work when it is first asked for.  Whoever was waiting then has asked for it,
and waits for all that it asks for in turn.  When it has been built it is settled, and what it has
told stands.  Between calls nobody waits at all: `Rests`.
-/
import Dwarf2.Build.Root
import Dwarf2.Proofs.Build.Calls
import Dwarf2.Proofs.Build.Waiting.Function

namespace Dwarf2
namespace Build

variable {src : Source} {first : Nat} {s s' : State} {e : Entry} {r : Option SymbolId}

/-! ## Entries -/

theorem Working.build {resolve : Resolver} (h : Working src first e s)
    (serves : Serves src first resolve) (pending : slot s e.offset = .pending none)
    (eq : (Build.build src resolve e).run s = (r, s')) : Completes src first e s r s' := by
  unfold Build.build at eq
  split at eq <;> rename_i tag
  · obtain ⟨id, run, rfl⟩ := run_map_eq.1 eq
    exact h.buildBaseType pending run
  · obtain ⟨id, run, rfl⟩ := run_map_eq.1 eq
    exact h.buildTypedef serves pending (by rw [tag]; decide) run
  · obtain ⟨id, run, rfl⟩ := run_map_eq.1 eq
    exact h.buildPointer serves pending (by rw [tag]; decide) run
  · obtain ⟨id, run, rfl⟩ := run_map_eq.1 eq
    exact h.buildPointer serves pending (by rw [tag]; decide) run
  · obtain ⟨id, run, rfl⟩ := run_map_eq.1 eq
    exact h.buildAggregate serves pending (by rw [tag]; decide) run
  · obtain ⟨id, run, rfl⟩ := run_map_eq.1 eq
    exact h.buildAggregate serves pending (by rw [tag]; decide) run
  · obtain ⟨id, run, rfl⟩ := run_map_eq.1 eq
    exact h.buildAggregate serves pending (by rw [tag]; decide) run
  · exact h.buildArray serves pending (by rw [tag]; decide) eq
  · exact h.buildQualified serves pending eq
  · exact h.buildQualified serves pending eq
  · obtain ⟨id, run, rfl⟩ := run_map_eq.1 eq
    exact h.buildEnumeration pending (by rw [tag]; decide) run
  · exact h.buildSubprogram serves pending (by rw [tag]; decide) eq
  · obtain ⟨id, run, rfl⟩ := run_map_eq.1 eq
    exact h.buildSubroutineType serves pending (by rw [tag]; decide) run
  · obtain ⟨_, s₁, run, eq⟩ := run_bind_eq.1 eq
    cases eq
    exact h.buildVariable serves pending run
  · cases eq
    exact .of_moves pending (.refl h.ready) nofun

/-- The entry that is asked for is put to work. -/
theorem Ready.enter (h : Ready src first s) (leads : Leads src s e.offset)
    (there : src.tree.get? e.offset = some e) (open' : slot s e.offset = .unresolved) :
    Working src first e (s.mark e.offset (.pending none)) where
  there := there
  ready := h.mark nofun fun id waits => by cases open'.symm.trans waits
  leads waiting d v hd pending := by
    by_cases same : waiting = e.offset
    · exact same ▸ .refl
    · rw [slot_mark_of_ne _ _ same] at pending
      exact leads waiting d v hd pending

theorem Recorded.enter (h : Recorded src first s) {offset : Nat}
    (open' : slot s offset = .unresolved) :
    Recorded src first (s.mark offset (.pending none)) := by
  refine h.mark (.mark fun _ v _ _ told => ?_) nofun
  rw [open'] at told
  cases told

/-- What the entry has told by the end of its run is what it is settled on. -/
theorem Completes.since_settle (pending : slot s e.offset = .pending none)
    (h : Completes src first e s r s') : Since src s' (s'.mark e.offset (.resolved r)) := by
  refine .mark fun _ v _ _ told => ?_
  have mine := h.moves.slots e.offset
  rw [pending] at mine
  cases waits : slot s' e.offset with
  | unresolved => rw [waits] at told; cases told
  | resolved r' => rw [waits] at mine; cases mine
  | pending v' =>
    rw [waits] at told
    cases v' with
    | none => cases told
    | some id =>
      cases told
      rw [(h.told id waits).1]
      rfl

/-- The entry that has been built is settled on its answer, and the run goes on record. -/
theorem Completes.settle {s₁ : State} {steps : Nat} (open' : slot s e.offset = .unresolved)
    (work : Working src first e (s.mark e.offset (.pending none)))
    (run : (Build.build src (resolveWithin src steps) e).run (s.mark e.offset (.pending none)) =
      (r, s₁))
    (h : Completes src first e (s.mark e.offset (.pending none)) r s₁) :
    Moves src first none [] s (s₁.mark e.offset (.resolved r)) where
  ready := h.moves.ready.mark (fun id told => by cases told; exact h.fresh id rfl)
    fun id waits => (h.told id waits).2
  grows := h.moves.grows
  slots offset := by
    by_cases same : offset = e.offset
    · rw [same, open', slot_mark_self]
      exact .settle r
    · have step := h.moves.slots offset
      rw [slot_mark_of_ne _ _ same] at step ⊢
      exact step.imp fun other => absurd (Option.some.inj other).symm same
  recorded before offset d r' hd tag resolved := by
    have past := h.since_settle (slot_mark_self _ _ _)
    by_cases same : offset = e.offset
    · rw [same] at hd resolved
      cases work.there.symm.trans hd
      rw [slot_mark_self] at resolved
      cases resolved
      exact ⟨_, s₁, work, slot_mark_self _ _ _, ⟨steps, run⟩, past⟩
    · rw [slot_mark_of_ne _ _ same] at resolved
      obtain ⟨s₂, s₃, worked⟩ :=
        h.moves.recorded (before.enter open') offset d r' hd tag resolved
      exact ⟨s₂, s₃, { worked with past := worked.past.trans past }⟩

/-! ## Requests -/

theorem serves_step {steps : Nat}
    (below : ∀ fewer, steps = fewer + 1 → Serves src first (resolveWithin src fewer)) :
    Serves src first (resolveWithin src steps) := by
  intro offset s r s' ready leads eq
  unfold resolveWithin at eq
  split at eq
  · cases eq
    exact ⟨ready.note _, nofun⟩
  rename_i e there
  obtain ⟨_, _, ⟨⟩, eq⟩ := run_bind_eq.1 eq
  have known (id : SymbolId) (told : (slot s offset).told? = some (some id)) :
      Fresh first s.symbols id := ready.told offset id told
  split at eq
  · rename_i found
    cases eq
    exact ⟨ready.note _, fun id hid => known id (by rw [found, hid]; rfl)⟩
  · rename_i found
    cases eq
    exact ⟨ready.note _, fun id hid => known id (by rw [found, hid]; rfl)⟩
  rename_i open'
  cases Entry.Tree.offset_of_get? there
  cases steps with
  | zero =>
    obtain ⟨_, _, ⟨⟩, eq⟩ := run_bind_eq.1 eq
    cases eq
    exact ⟨ready.note _, nofun⟩
  | succ steps =>
    obtain ⟨_, _, ⟨⟩, eq⟩ := run_bind_eq.1 eq
    obtain ⟨r, s₁, run, eq⟩ := run_bind_eq.1 eq
    obtain ⟨_, _, ⟨⟩, eq⟩ := run_bind_eq.1 eq
    cases eq
    have work := ready.enter leads there open'
    have completes := work.build (below steps rfl) (slot_mark_self _ _ _) run
    have settled := completes.settle open' work run
    exact ⟨settled.trans (settled.ready.note _), completes.fresh⟩

/-- However the references between the entries run, whoever waits for an entry is served. -/
theorem serves_resolveWithin (src : Source) (first steps : Nat) :
    Serves src first (resolveWithin src steps) := by
  induction steps with
  | zero => exact serves_step nofun
  | succ steps ih =>
    refine serves_step fun fewer h => ?_
    cases h
    exact ih

/-! ## Calls -/

/-- A builder of which nothing is being built. -/
structure Rests (src : Source) (first : Nat) (s : State) : Prop where
  ready : Ready src first s
  recorded : Recorded src first s
  idle : ∀ offset v, slot s offset ≠ .pending v

namespace Rests

theorem move (h : Rests src first s) (moves : Moves src first none [] s s') :
    Rests src first s' where
  ready := moves.ready
  recorded := moves.recorded h.recorded
  idle offset v pending := by
    have step := moves.slots offset
    rw [pending] at step
    obtain ⟨v', before⟩ := step.of_pending
    exact h.idle offset v' before

theorem resolve (h : Rests src first s) {offset : Nat}
    (eq : (Build.resolve src offset).run s = (r, s')) : Rests src first s' :=
  h.move (serves_resolveWithin src first _ offset s r s' h.ready
    (fun waiting _ v _ pending => absurd pending (h.idle waiting v)) eq).1

/-- The root has no symbol that is waited for, and may be settled on any that is new. -/
theorem mark_root (h : Rests src first s) (tag : src.tree.root.tag = .compileUnit) {id : SymbolId}
    (fresh : Fresh first s.symbols id) :
    Rests src first (s.mark src.tree.root.offset (.resolved (some id))) := by
  have root {d : Entry} (hd : src.tree.get? src.tree.root.offset = some d) :
      d.tag = .compileUnit := by
    cases (Entry.Tree.get?_root src.tree).symm.trans hd
    exact tag
  have past : Since src s (s.mark src.tree.root.offset (.resolved (some id))) :=
    .mark fun d _ hd other _ => absurd (root hd) other
  refine ⟨h.ready.mark (fun i told => by cases told; exact fresh)
    fun i waits => absurd waits (h.idle _ _), fun offset d r hd other resolved => ?_,
    fun offset v pending => ?_⟩
  · rw [slot_mark_of_ne _ _ (by rintro rfl; exact other (root hd))] at resolved
    obtain ⟨s₁, s₂, worked⟩ := h.recorded offset d r hd other resolved
    exact ⟨s₁, s₂, { worked with past := worked.past.trans past }⟩
  · by_cases same : offset = src.tree.root.offset
    · rw [same, slot_mark_self] at pending
      cases pending
    · rw [slot_mark_of_ne _ _ same] at pending
      exact h.idle offset v pending

theorem internFile (h : Rests src first s) (directory : Option String) (name : String) :
    Rests src first { s with symbols := (s.symbols.internFile directory name).2 } := by
  have same := s.symbols.symbols_internFile directory name
  exact h.move (h.ready.touch (.internFile (Symbol.Within.refl []) _ _ _)
    (congrArg Array.size same) fun id empty => by rwa [Symbol.Table.get?, same])

theorem buildUnit (h : Rests src first s) {root : Except Error Root}
    (eq : (Build.buildUnit src).run s = (root, s')) : Rests src first s' := by
  unfold Build.buildUnit at eq
  dsimp only at eq
  split at eq
  · cases eq
    exact h
  rename_i tag
  rw [ne_eq, Decidable.not_not] at tag
  obtain ⟨name, s₁, hname, eq⟩ := run_bind_eq.1 eq
  obtain ⟨source, s₂, hsource, eq⟩ := run_bind_eq.1 eq
  obtain ⟨compiland, s₃, hcompiland, eq⟩ := run_bind_eq.1 eq
  obtain ⟨_, s₄, hroot, eq⟩ := run_bind_eq.1 eq
  obtain ⟨_, s₅, hnoted, eq⟩ := run_bind_eq.1 eq
  obtain ⟨_, s₆, hchildren, eq⟩ := run_bind_eq.1 eq
  cases eq
  have named : Rests src first s₁ := h.move (h.ready.nameOf hname)
  have interned : Rests src first s₂ := by
    cases hsource
    exact named.internFile _ _
  obtain ⟨hid, hs₃⟩ := of_run_push hcompiland
  have pushed : Rests src first s₃ :=
    hs₃ ▸ interned.move (interned.ready.push ⟨nofun, rfl⟩)
  have fresh : Fresh first s₃.symbols compiland := by
    rw [hid, hs₃]
    exact ⟨interned.ready.first_le, Symbol.Table.lt_size_push _ _⟩
  have known : Rests src first s₅ := by
    cases hroot
    cases hnoted
    have marked := pushed.mark_root tag fresh
    exact marked.move (marked.ready.beside rfl fun _ => rfl)
  exact run_forM (P := fun _ s₆ => Rests src first s₆) hchildren known
    fun _ child s₆ s₇ _ sofar run => by
      obtain ⟨id, s₈, resolved, run⟩ := run_bind_eq.1 run
      cases run
      exact sofar.resolve resolved

theorem perform (h : Rests src first s) {call : Call}
    (eq : (call.perform src).run s = ((), s')) : Rests src first s' := by
  cases call with
  | resolve offset =>
    obtain ⟨id, s₁, resolved, eq⟩ := run_bind_eq.1 eq
    cases eq
    exact h.resolve resolved
  | unit =>
    obtain ⟨root, s₁, built, eq⟩ := run_bind_eq.1 eq
    cases eq
    exact h.buildUnit built

end Rests

theorem rests_new (src : Source) (symbols : Symbol.Table) (names : NameSupply) :
    Rests src symbols.size { symbols, names } where
  ready :=
    { first_le := Nat.le_refl _
      told := fun offset id told => by
        rw [slot_new] at told
        cases told
      hops := fun id n next low hop => absurd hop.lt_size (Nat.not_lt.2 low)
      places := fun id low empty =>
        absurd (Symbol.Table.lt_size_of_get? empty) (Nat.not_lt.2 low) }
  recorded offset d r _ _ resolved := by
    rw [slot_new] at resolved
    cases resolved
  idle offset v pending := by
    rw [slot_new] at pending
    cases pending

theorem rests_after (src : Source) (symbols : Symbol.Table) (names : NameSupply)
    (calls : List Call) : Rests src symbols.size (after src symbols names calls) :=
  run_forM (P := fun _ s => Rests src symbols.size s) rfl (rests_new src symbols names)
    fun _ _ _ _ _ sofar run => sofar.perform run

end Build
end Dwarf2
