/-
Builders keep the table sound.

A unit is built into a table of which nothing is known, so `Sound` is about what comes on top of
the table that the builder started with.  `Builds` is what any stretch of building does to such
a state: it stays sound, and of the symbols that were there only those in hand change.  A
resolver is `Honest` if that holds of it, with nothing in hand, and the symbol that it answers
with is there.
-/
import Dwarf2.Proofs.Build.Description
import Dwarf2.Proofs.NameSupply
import Dwarf2.Proofs.Symbol.WellFormed

namespace Dwarf2
namespace Build

open Dwarf2.Symbol.Table (Inside)

variable {start : Symbol.Table} {own own' hand hand' : List SymbolId} {s s' s'' : State}
  {resolve : Resolver} {src : Source} {e : Entry} {id : SymbolId}

/-- All that has been added to the table is sound, and so is what the slots tell.  The symbols
that the builder owns need not be finished. -/
structure Sound (start : Symbol.Table) (own : List SymbolId) (s : State) : Prop where
  table : s.symbols.SoundBeyond start own
  slots : ∀ offset id, (slot s offset).told? = some id → s.symbols.Inside id
  compiland : ∀ id, s.compiland = some id → ∃ source, s.symbols.get? id = some (.compiland source)

structure Builds (start : Symbol.Table) (own hand : List SymbolId) (s s' : State) : Prop where
  sound : Sound start own s'
  grows : s.symbols.Grows hand s'.symbols
  names : s.names.Advances s'.names

def Honest (start : Symbol.Table) (resolve : Resolver) : Prop :=
  ∀ own offset s id s', Sound start own s → (resolve offset).run s = (id, s') →
    Builds start own [] s s' ∧ s'.symbols.Inside id

namespace Builds

theorem refl (h : Sound start own s) : Builds start own hand s s :=
  ⟨h, .refl _, .refl _⟩

theorem trans (h : Builds start own hand s s') (h' : Builds start own hand s' s'') :
    Builds start own hand s s'' :=
  ⟨h'.sound, h.grows.trans h'.grows, h.names.trans h'.names⟩

theorem widen (h : Builds start own hand s s') (sub : ∀ id ∈ hand, id ∈ hand') :
    Builds start own hand' s s' :=
  ⟨h.sound, h.grows.widen sub, h.names⟩

theorem within (h : Builds start own [] s s') : Builds start own hand s s' :=
  h.widen nofun

/-- Symbols that were not there before may be changed in any case. -/
theorem leave (h : Builds start own hand s s')
    (new : ∀ id ∈ hand, s.symbols.size ≤ id.index) : Builds start own [] s s' :=
  ⟨h.sound, h.grows.leave new, h.names⟩

theorem inside (h : Builds start own hand s s') {i : Option SymbolId} (there : s.symbols.Inside i) :
    s'.symbols.Inside i :=
  there.grow h.grows.develops

end Builds

/-! ## Steps -/

namespace Sound

theorem widen (h : Sound start own s) (sub : ∀ id ∈ own, id ∈ own') : Sound start own' s :=
  ⟨h.table.widen sub, h.slots, h.compiland⟩

theorem finish (h : Sound start (id :: own) s)
    (done : ∀ x, s.symbols.get? id = some x → x.Finished) : Sound start own s :=
  ⟨h.table.finish done, h.slots, h.compiland⟩

theorem change (h : Sound start own s) {symbols : Symbol.Table}
    (table : symbols.SoundBeyond start own) (grows : s.symbols.Grows hand symbols) :
    Builds start own hand s { s with symbols } := by
  refine ⟨⟨table, fun offset id told => (h.slots offset id told).grow grows.develops,
    fun id hid => ?_⟩, grows, .refl _⟩
  obtain ⟨source, there⟩ := h.compiland id hid
  obtain ⟨y, hy, within⟩ := grows.symbols id _ there
  exact ⟨source, by rw [hy, within.develops.of_compiland]⟩

theorem mark (h : Sound start own s) (offset : Nat) {sl : Slot}
    (inside : ∀ id, sl.told? = some id → s.symbols.Inside id) :
    Builds start own hand s (s.mark offset sl) := by
  refine ⟨⟨h.table, fun other id told => ?_, h.compiland⟩, .refl _, .refl _⟩
  by_cases here : other = offset
  · rw [here, slot_mark_self] at told
    exact inside id told
  · rw [slot_mark_of_ne s sl here] at told
    exact h.slots other id told

theorem note (h : Sound start own s) (event : Event) : Builds start own hand s (s.note event) :=
  ⟨⟨h.table, h.slots, h.compiland⟩, .refl _, .refl _⟩

theorem expose (h : Sound start own s) (offset : Nat) (inside : id.index < s.symbols.size) :
    Builds start own hand s (s.mark offset (.pending (some id))) := by
  refine h.mark offset fun _ told => ?_
  cases told
  rintro _ ⟨⟩
  exact inside

theorem nameOf (h : Sound start own s) {label name : String}
    (eq : (Build.nameOf src e label).run s = (name, s')) : Builds start own hand s s' := by
  have names : s.names.Advances s'.names := by
    unfold Build.nameOf at eq
    split at eq
    · cases eq
      exact .refl _
    · cases eq
      exact .fresh label _
  rw [of_run_nameOf eq]
  exact ⟨⟨h.table, h.slots, h.compiland⟩, .refl _, names⟩

theorem typeOf (h : Sound start own s) (honest : Honest start resolve) {type : Option SymbolId}
    (eq : (Build.typeOf src resolve e).run s = (type, s')) :
    Builds start own [] s s' ∧ s'.symbols.Inside type := by
  unfold Build.typeOf at eq
  split at eq
  · rename_i target _
    obtain ⟨_, _, ⟨⟩, eq⟩ := run_bind_eq.1 eq
    obtain ⟨_, _, ⟨⟩, eq⟩ := run_bind_eq.1 eq
    have noted : Builds start own [] s (s.note (.followed e.offset target (slot s target))) :=
      h.note _
    obtain ⟨built, inside⟩ := honest own _ _ _ _ noted.sound eq
    exact ⟨noted.trans built, inside⟩
  · cases eq
    exact ⟨.refl h, .none _⟩

theorem push (h : Sound start own s) {x : Symbol} (eq : (Build.push x).run s = (id, s'))
    (holds : s.symbols.Holds x) (finished : x.Finished ∨ ⟨s.symbols.size⟩ ∈ own) :
    Builds start own hand s s' ∧ s'.symbols.Inside (some id) := by
  obtain ⟨rfl, rfl⟩ := of_run_push eq
  refine ⟨h.change (h.table.push holds finished) (.push (Symbol.Within.refl _) _ x), ?_⟩
  rintro _ ⟨⟩
  exact Symbol.Table.lt_size_push s.symbols x

/-- A loop of steps with the same symbols in hand. -/
theorem forM {α : Type} {f : α → Build Unit} {l : List α} (h : Sound start own s)
    (eq : (l.forM f).run s = ((), s'))
    (step : ∀ a ∈ l, ∀ s₁ s₂, Builds start own hand s s₁ → (f a).run s₁ = ((), s₂) →
      Builds start own hand s₁ s₂) : Builds start own hand s s' :=
  run_forM (P := fun _ s₁ => Builds start own hand s s₁) eq (.refl h)
    fun _ a s₁ s₂ mem sofar run => sofar.trans (step a mem s₁ s₂ sofar run)

end Sound

/-! ## Symbols that are exposed -/

namespace Sound

theorem withPlace (h : Sound start own s) (hid : id = ⟨s.symbols.size⟩) :
    Builds start (id :: own) hand s (s.withPlace e id) := by
  have wide : Sound start (id :: own) s := h.widen fun _ => List.mem_cons_of_mem id
  have reserved : Builds start (id :: own) hand s { s with symbols := s.symbols.reserve.2 } :=
    wide.change (wide.table.push ⟨nofun, nofun, nofun, nofun, nofun⟩
      (.inr (hid ▸ List.mem_cons_self))) (.push (Symbol.Within.refl hand) _ _)
  have inside : id.index < s.symbols.reserve.2.size := by
    rw [hid]
    exact Symbol.Table.lt_size_push s.symbols _
  have noted := reserved.trans (reserved.sound.note (.reserved id))
  exact noted.trans (noted.sound.expose e.offset inside)

theorem withFilled (h : Sound start (id :: own) s) {x : Symbol} (holds : s.symbols.Holds x) :
    Builds start (id :: own) [id] s (s.withFilled id x) := by
  have filled : Builds start (id :: own) [id] s { s with symbols := s.symbols.fill id x } :=
    h.change (h.table.fill holds List.mem_cons_self) (.fill (Symbol.Within.refl _)
      (Symbol.Within.free (List.mem_singleton_self id) _ _ (.fill x)))
  exact filled.trans (filled.sound.note _)

/-- Whatever is built for a place fills it. -/
theorem inPlace (h : Sound start own s) {build : Build Symbol}
    (eq : (Build.inPlace e build).run s = (id, s'))
    (built : ∀ s₁ x s₂, Sound start (id :: own) s₁ → build.run s₁ = (x, s₂) →
      Builds start (id :: own) [] s₁ s₂ ∧ s₂.symbols.Holds x ∧ x.Finished) :
    Builds start own [] s s' ∧ s'.symbols.Inside (some id) := by
  obtain ⟨hid, x, s₂, run, rfl⟩ := of_run_inPlace eq
  have placed : Builds start (id :: own) [id] s (s.withPlace e id) := h.withPlace hid
  obtain ⟨more, holds, finished⟩ := built _ x s₂ placed.sound run
  have filled := more.sound.withFilled holds
  have empty : s₂.symbols.get? id = some .placeholder :=
    more.grows.get?_eq (hid ▸ Symbol.Table.get?_push_self s.symbols .placeholder)
  have done : (s₂.withFilled id x).symbols.get? id = some x := Symbol.Table.get?_fill_self empty
  have settled : Sound start own (s₂.withFilled id x) := filled.sound.finish fun y hy => by
    cases done.symm.trans hy
    exact finished
  have whole := (placed.trans more.within).trans filled
  have left : Builds start own [id] s (s₂.withFilled id x) :=
    ⟨settled, whole.grows, whole.names⟩
  refine ⟨left.leave (by simp [hid, Symbol.Table.size]), ?_⟩
  rintro _ ⟨⟩
  exact Symbol.Table.lt_size_of_get? done

/-- A symbol with parts is complete from the start, and changes only while they are added. -/
theorem withParts (h : Sound start own s) {x : Symbol} {parts : SymbolId → Build Unit}
    (eq : (Build.withParts e x parts).run s = (id, s')) (holds : s.symbols.Holds x)
    (finished : x.Finished)
    (built : ∀ s₁, Sound start own s₁ → (parts id).run s₁ = ((), s') →
      Builds start own [id] s₁ s') :
    Builds start own [] s s' ∧ s'.symbols.Inside (some id) := by
  obtain ⟨hid, run⟩ := of_run_withParts eq
  have pushed : Builds start own [id] s { s with symbols := (s.symbols.push x).2 } :=
    h.change (h.table.push holds (.inl finished)) (.push (Symbol.Within.refl _) _ x)
  have inside : id.index < (s.symbols.push x).2.size := by
    rw [hid]
    exact Symbol.Table.lt_size_push s.symbols x
  have exposed := pushed.trans (pushed.sound.expose e.offset inside)
  have more := built _ exposed.sound run
  refine ⟨(exposed.trans more).leave (by simp [hid, Symbol.Table.size]), ?_⟩
  rintro _ ⟨⟩
  exact more.grows.develops.lt_size inside

end Sound
end Build
end Dwarf2
