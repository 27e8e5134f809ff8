/-
What holds after any calls of a builder.

A builder is asked for entries and for the whole unit, in any order and any number of times.
All that is known of the state that is left follows from how it has grown from the one the
builder started with: `grows_after`.
-/
import Dwarf2.Build.Root
import Dwarf2.Proofs.Build.Resolve

namespace Dwarf2
namespace Build

variable {src : Source} {start s s' : State}

inductive Call
  | resolve (offset : Nat)
  | unit
deriving DecidableEq, Repr

def Call.perform (src : Source) : Call → Build Unit
  | .resolve offset => do let _ ← Build.resolve src offset
  | .unit => do let _ ← buildUnit src

/-- The state that the calls leave, made of a new builder. -/
def after (src : Source) (symbols : Symbol.Table) (names : NameSupply) (calls : List Call) :
    State :=
  ((calls.forM (·.perform src)).run { symbols, names }).2

/-! ## The unit -/

namespace Grows

theorem idle (h : Grows src {} start s) (fresh : ∀ offset, slot start offset = .unresolved)
    (offset : Nat) : slot s offset = .unresolved ∨ ∃ r, slot s offset = .resolved r := by
  have step := h.slots offset
  rw [fresh] at step
  generalize slot s offset = a at step ⊢
  cases step with
  | same => exact .inl rfl
  | settle r => exact .inr ⟨r, rfl⟩

theorem ne_pending_of_fresh (h : Grows src {} start s)
    (fresh : ∀ offset, slot start offset = .unresolved) (offset : Nat) :
    slot s offset ≠ .pending none := by
  rcases h.idle fresh offset with h | ⟨r, h⟩ <;> rw [h] <;> nofun

end Grows

/-- The root is settled once more each time the unit is built. -/
theorem Later.mark_root (s : State) (id : Option SymbolId) :
    Later src s (s.mark src.tree.root.offset (.resolved id)) :=
  .settle fun ne => absurd rfl ne

namespace Grows

/-- Nothing is due to the root of a unit, so it may be settled on anything. -/
theorem mark_root (h : Grows src {} start s) (fresh : slot start src.tree.root.offset = .unresolved)
    (tag : src.tree.root.tag = .compileUnit) (id : Option SymbolId) :
    Grows src {} start (s.mark src.tree.root.offset (.resolved id)) := by
  have apart : ∀ {offset e}, src.tree.get? offset = some e → e.tag ≠ .compileUnit →
      offset ≠ src.tree.root.offset := by
    rintro offset e he htag rfl
    rw [Entry.Tree.get?_root] at he
    cases he
    exact htag tag
  have other : ∀ {offset e k}, src.tree.get? offset = some e → e.tag.kind? = some k →
      offset ≠ src.tree.root.offset :=
    fun he hk => apart he fun htag => by rw [htag] at hk; cases hk
  have later : Later src s (s.mark src.tree.root.offset (.resolved id)) := .mark_root s id
  refine ⟨h.size_le, h.kept, h.filled, fun offset => ?_, h.noted, fun event he => ?_, h.placed,
    ?_, ?_, ?_, ?_, ?_⟩
  · by_cases same : offset = src.tree.root.offset
    · rw [same, slot_mark_self, fresh]
      exact .settle id
    · rw [slot_mark_of_ne _ _ same]
      exact h.slots offset
  · exact (h.sound event he).imp_right fun sound => sound.later later
  · intro offset e r he hs
    by_cases same : offset = src.tree.root.offset
    · rw [same, Entry.Tree.get?_root] at he
      cases he
      rw [Describes, tag]
      trivial
    · have hs := (Settles.mark_iff _ same).1 hs
      exact (h.described offset e r he hs).later later fun _ _ hnew hx => ⟨hx, hnew⟩
  · intro offset e r he htag hs
    obtain ⟨s₁, s₂, runs, le, lasts⟩ :=
      h.traced offset e r he htag ((Settles.mark_iff _ (apart he htag)).1 hs)
    exact ⟨s₁, s₂, runs, le, lasts.beside later rfl⟩
  · intro i x k low out hx hk
    obtain ⟨offset, e, he, htag, hs⟩ := h.owned i x k low out hx hk
    exact ⟨offset, e, he, htag, (Settles.mark_iff _ (other he htag)).2 hs⟩
  · intro i g low out hx hg
    obtain ⟨offset, e, r, he, hs, signs⟩ := h.signed i g low out hx hg
    have htag : e.tag ≠ .compileUnit := by
      rcases signs with ⟨htag, -⟩ | ⟨htag, -⟩ <;> rw [htag] <;> decide
    exact ⟨offset, e, r, he, (Settles.mark_iff _ (apart he htag)).2 hs, signs⟩
  · intro offset offset' e e' k k' i he he' hk hk' hs hs'
    exact h.unique offset offset' e e' k k' i he he' hk hk'
      ((Settles.mark_iff _ (other he hk)).1 hs) ((Settles.mark_iff _ (other he' hk')).1 hs')

theorem internFile {directory : Option String} {name : String} :
    Grows src {} s { s with symbols := (s.symbols.internFile directory name).2 } :=
  .of_same rfl rfl (s.symbols.symbols_internFile directory name)

theorem resolve (h : Grows src {} start s) (fresh : ∀ offset, slot start offset = .unresolved)
    {offset : Nat} {id : Option SymbolId} (eq : (Build.resolve src offset).run s = (id, s')) :
    Grows src {} start s' ∧ Later src s s' := by
  have grows := (answer_resolve (h.ne_pending_of_fresh fresh) eq).grows
  exact ⟨h.trans grows, grows.later⟩

theorem buildUnit (h : Grows src {} start s) (fresh : ∀ offset, slot start offset = .unresolved)
    {r : Except Error Root} (eq : (buildUnit src).run s = (r, s')) :
    Grows src {} start s' ∧ Later src s s' := by
  unfold Build.buildUnit at eq
  dsimp only at eq
  split at eq
  · cases eq
    exact ⟨h, .refl s⟩
  rename_i tag
  rw [ne_eq, Decidable.not_not] at tag
  obtain ⟨name, s₁, hname, eq⟩ := run_bind_eq.1 eq
  obtain ⟨source, s₂, hsource, eq⟩ := run_bind_eq.1 eq
  obtain ⟨compiland, s₃, hcompiland, eq⟩ := run_bind_eq.1 eq
  obtain ⟨_, s₄, hroot, eq⟩ := run_bind_eq.1 eq
  obtain ⟨_, s₅, hnoted, eq⟩ := run_bind_eq.1 eq
  obtain ⟨_, s₆, hchildren, eq⟩ := run_bind_eq.1 eq
  cases eq
  have named : Grows src {} s s₁ := .nameOf hname
  have interned : Grows src {} s₁ s₂ := by
    cases hsource
    exact .internFile
  obtain ⟨-, hs₃⟩ := of_run_push hcompiland
  have pushed : Grows src {} s₂ s₃ := by
    rw [hs₃]
    exact .push (.inl nofun) (.inr ⟨rfl, nofun⟩)
  have before := (named.trans interned).trans pushed
  have marked : Grows src {} start s₄ ∧ Later src s₃ s₄ := by
    cases hroot
    exact ⟨(h.trans before).mark_root (fresh _) tag _, .mark_root s₃ _⟩
  have known : Grows src {} s₄ s₅ := by
    cases hnoted
    exact .of_same rfl rfl rfl
  refine run_forM (P := fun _ s₆ => Grows src {} start s₆ ∧ Later src s s₆) hchildren
    ⟨marked.1.trans known, (before.later.trans marked.2).trans known.later⟩ ?_
  intro _ child s₆ s' _ sofar run
  obtain ⟨id, s₇, resolved, run⟩ := run_bind_eq.1 run
  cases run
  obtain ⟨grows, later⟩ := sofar.1.resolve fresh resolved
  exact ⟨grows, sofar.2.trans later⟩

theorem perform (h : Grows src {} start s) (fresh : ∀ offset, slot start offset = .unresolved)
    {call : Call} (eq : (call.perform src).run s = ((), s')) :
    Grows src {} start s' ∧ Later src s s' := by
  cases call with
  | resolve offset =>
    obtain ⟨id, s₁, resolved, eq⟩ := run_bind_eq.1 eq
    cases eq
    exact h.resolve fresh resolved
  | unit =>
    obtain ⟨r, s₁, built, eq⟩ := run_bind_eq.1 eq
    cases eq
    exact h.buildUnit fresh built

end Grows

/-! ## All calls -/

/-- What a builder has done when the calls have returned, as far as it can be left in the
middle of anything. -/
structure Settled (src : Source) (symbols : Symbol.Table) (calls : List Call) (s : State) :
    Prop where
  /-- The steps of the resolver have never run out. -/
  not_exhausted : ∀ offset, .exhausted offset ∉ s.journal
  not_pending : ∀ offset id, slot s offset ≠ .pending id
  /-- This is about the entries that were asked for by the calls, and by other entries. -/
  resolved : ∀ offset e, src.tree.get? offset = some e →
    (.resolve offset ∈ calls ∨ ∃ id, .answered offset id ∈ s.journal) →
      ∃ r, slot s offset = .resolved r
  not_placeholder : ∀ id, symbols.size ≤ id.index → s.symbols.get? id ≠ some .placeholder
  /-- A place that was reserved has been filled once, and with effect. -/
  filled : ∀ id, .reserved id ∈ s.journal →
    symbols.size ≤ id.index ∧ placements s id = [.filled id true, .reserved id]

/-- Every entry has been built at most once, into a symbol of its own. -/
structure Memoized (src : Source) (symbols : Symbol.Table) (s : State) : Prop where
  /-- All requests for an entry that were answered with an identifier, be it while the entry
  was built or later, were answered with the same one.  The root gets a symbol each time the
  unit is built. -/
  answered : ∀ offset id, offset ≠ src.tree.root.offset → .answered offset (some id) ∈ s.journal →
    slot s offset = .resolved (some id)
  /-- At any moment, also while other entries are built. -/
  unchanged : ∀ (t : State) (steps offset : Nat) (e : Entry) (r : Option SymbolId),
    src.tree.get? offset = some e → slot t offset = .resolved r →
      ∃ t', (resolveWithin src steps offset).run t = (r, t') ∧
        t'.symbols = t.symbols ∧ t'.names = t.names ∧ t'.slots = t.slots
  /-- Every new symbol of a kind stands for one entry. -/
  owned : ∀ kind id x, symbols.size ≤ id.index → s.symbols.get? id = some x →
    x.kind? = some kind → ∃! offset, ∃ e, src.tree.get? offset = some e ∧
      e.tag.kind? = some kind ∧ slot s offset = .resolved (some id)
  /-- Every entry of a kind that has a symbol has a new one of that kind. -/
  stands : ∀ kind offset e id, src.tree.get? offset = some e → e.tag.kind? = some kind →
    slot s offset = .resolved (some id) →
      symbols.size ≤ id.index ∧ ∃ x, s.symbols.get? id = some x ∧ x.kind? = some kind

section After

variable (src : Source) (symbols : Symbol.Table) (names : NameSupply) (calls : List Call)

theorem slot_new (offset : Nat) : slot { symbols, names } offset = .unresolved := by
  simp [slot]

theorem grows_after : Grows src {} { symbols, names } (after src symbols names calls) :=
  run_forM (P := fun _ s => Grows src {} { symbols, names } s) rfl (.refl _)
    fun _ _ _ _ _ before run => (before.perform (slot_new symbols names) run).1

/-- What a call has asked for has been asked for in the end. -/
theorem ne_unresolved_of_mem {offset : Nat} {e : Entry} (he : src.tree.get? offset = some e)
    (called : .resolve offset ∈ calls) :
    slot (after src symbols names calls) offset ≠ .unresolved := by
  have fresh := slot_new symbols names
  have all := run_forM (P := fun done s => Grows src {} { symbols, names } s ∧
      (.resolve offset ∈ done → slot s offset ≠ .unresolved)) (f := Call.perform src)
    (l := calls) (s := { symbols, names }) rfl ⟨.refl _, nofun⟩ ?_
  · exact all.2 called
  intro done call s s' _ before run
  obtain ⟨grows, later⟩ := before.1.perform fresh run
  refine ⟨grows, fun called => ?_⟩
  rcases List.mem_append.1 called with called | called
  · exact later.asked offset (before.2 called)
  · cases List.mem_singleton.1 called
    obtain ⟨id, s₁, resolved, run⟩ := run_bind_eq.1 run
    cases run
    exact (answer_resolve (before.1.ne_pending_of_fresh fresh) resolved).asked e he

/-- Whatever the references between the entries are, the calls leave nothing in the middle. -/
theorem settled_after : Settled src symbols calls (after src symbols names calls) := by
  generalize hs : after src symbols names calls = s
  have grows : Grows src {} { symbols, names } s := hs ▸ grows_after src symbols names calls
  have fresh := slot_new symbols names
  have sound : ∀ event ∈ s.journal, event.Sound src s := fun event h =>
    (grows.sound event h).resolve_left List.not_mem_nil
  refine ⟨fun offset h => sound _ h, fun offset id pending => ?_, fun offset e he asked => ?_,
    fun id low empty => ?_, fun id reserved => ?_⟩
  · rcases grows.idle fresh offset with h | ⟨r, h⟩ <;> rw [h] at pending <;> cases pending
  · refine (grows.idle fresh offset).resolve_left ?_
    rcases asked with called | ⟨id, answered⟩
    · exact hs ▸ ne_unresolved_of_mem src symbols names calls he called
    · have := sound _ answered
      simp only [Event.Sound, he] at this
      exact this.1
  · have before := grows.filled id List.not_mem_nil empty
    exact absurd (Symbol.Table.lt_size_of_get? before) (Nat.not_lt.2 low)
  · have mem : .reserved id ∈ placements s id := List.mem_filter.2 ⟨reserved, decide_eq_true rfl⟩
    rcases grows.placed id List.not_mem_nil with eq | ⟨low, -, eq⟩
    · rw [eq] at mem
      cases mem
    · exact ⟨low, eq⟩

theorem memoized_after : Memoized src symbols (after src symbols names calls) := by
  have grows := grows_after src symbols names calls
  have fresh := slot_new symbols names
  refine ⟨fun offset id ne answered => ?_, fun t steps offset e r he resolved => ?_,
    fun kind id x low hx hkind => ?_, fun kind offset e id he htag resolved => ?_⟩
  · have sound := (grows.sound _ answered).resolve_left List.not_mem_nil
    cases found : src.tree.get? offset with
    | none =>
      simp only [Event.Sound, found] at sound
      cases sound
    | some e =>
      simp only [Event.Sound, found] at sound
      have told := sound.2 id rfl ne
      rcases grows.idle fresh offset with h | ⟨r, h⟩ <;> rw [h] at told ⊢
      · cases told
      · exact congrArg Slot.resolved (Option.some.inj told)
  · exact ⟨_, run_resolveWithin_of_resolved he resolved, rfl, rfl, rfl⟩
  · obtain ⟨offset, e, he, htag, hs⟩ := grows.owned id x kind low List.not_mem_nil hx hkind
    refine ⟨offset, ⟨e, he, htag, hs.2⟩, ?_⟩
    rintro other ⟨d, hd, htag', resolved⟩
    exact grows.unique other offset d e kind kind id hd he htag' htag ⟨fresh other, resolved⟩ hs
  · obtain ⟨x, hnew, hx, hkind⟩ :=
      (grows.described offset e _ he ⟨fresh offset, resolved⟩).stands_of_kind htag
    exact ⟨hnew.1, x, hx, hkind⟩

end After

end Build
end Dwarf2
