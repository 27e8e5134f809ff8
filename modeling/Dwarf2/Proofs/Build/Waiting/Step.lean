/-
What waits while an entry is built.

A place that has been reserved stays empty until the symbol of its entry is built, and that entry
waits for all that it has asked for.  So while an entry is at `Work`, whatever place is empty
belongs to an entry that has asked for it, be it by way of others.  All other symbols of the
builder are what they will be, as far as the length of a type goes.

`Moves` is what any stretch of building does to such a state.  A builder is `Calm` if that is all
it does, and most are made of calm ones.
-/
import Dwarf2.Proofs.Build.Description
import Dwarf2.Proofs.Symbol.Walk

namespace Dwarf2

namespace Build

variable {α β : Type} {src : Source} {first : Nat} {entry : Option Nat} {hand hand' : List SymbolId}
  {s s' s'' : State} {resolve : Resolver} {e c : Entry} {id : SymbolId}

theorem Slot.Becomes.of_pending {P : Prop} {a : Slot} {v : Option SymbolId}
    (h : Becomes P a (.pending v)) : ∃ v', a = .pending v' := by
  cases h with
  | same => exact ⟨v, rfl⟩
  | expose => exact ⟨none, rfl⟩

/-! ## States -/

/-- The symbol is one of those that come behind the first ones, which are so many. -/
def Fresh (first : Nat) (t : Symbol.Table) (id : SymbolId) : Prop :=
  first ≤ id.index ∧ id.index < t.size

theorem Fresh.grow {t u : Symbol.Table} (h : Fresh first t id) (le : t.size ≤ u.size) :
    Fresh first u id :=
  ⟨h.1, Nat.lt_of_lt_of_le h.2 le⟩

/-- A state of a builder that has started with so many symbols. -/
structure Ready (src : Source) (first : Nat) (s : State) : Prop where
  first_le : first ≤ s.symbols.size
  told : ∀ offset id, (slot s offset).told? = some (some id) → Fresh first s.symbols id
  hops : ∀ id n next, first ≤ id.index → s.symbols.Hop id n next → Fresh first s.symbols next
  /-- A place that is empty belongs to an entry that is not answered yet. -/
  places : ∀ id, first ≤ id.index → s.symbols.get? id = some .placeholder →
    ∃ offset d, src.tree.get? offset = some d ∧ d.tag ≠ .compileUnit ∧
      slot s offset = .pending (some id)

/-- What was known then is known now.  The root is told anew each time that the unit is built. -/
structure Since (src : Source) (s s' : State) : Prop where
  develops : s.symbols.Extends (fun _ => Symbol.Develops) s'.symbols
  told : ∀ offset d v, src.tree.get? offset = some d → d.tag ≠ .compileUnit →
    (slot s offset).told? = some v → (slot s' offset).told? = some v

theorem Since.trans (h : Since src s s') (h' : Since src s' s'') : Since src s s'' where
  develops := h.develops.trans (fun _ _ _ _ => .trans) h'.develops
  told offset d v hd tag told := h'.told offset d v hd tag (h.told offset d v hd tag told)

/-- A step that changes neither the symbols nor the slots. -/
theorem Since.beside (symbols : s'.symbols = s.symbols)
    (slots : ∀ offset, slot s' offset = slot s offset) : Since src s s' where
  develops := symbols ▸ .refl (fun _ => .same) _
  told offset _ _ _ _ told := by rwa [slots]

/-- An entry may be marked anew as long as it tells what it has told. -/
theorem Since.mark {offset : Nat} {sl : Slot}
    (told : ∀ d v, src.tree.get? offset = some d → d.tag ≠ .compileUnit →
      (slot s offset).told? = some v → sl.told? = some v) :
    Since src s (s.mark offset sl) where
  develops := .refl (fun _ => .same) _
  told other d v hd tag before := by
    by_cases same : other = offset
    · subst same
      rw [slot_mark_self]
      exact told d v hd tag before
    · rwa [slot_mark_of_ne _ _ same]

/-- Whoever is not answered yet has asked for the offset, be it by way of others. -/
def Leads (src : Source) (s : State) (offset : Nat) : Prop :=
  ∀ waiting d v, src.tree.get? waiting = some d → slot s waiting = .pending v →
    Relation.ReflTransGen (Asks src) waiting offset

structure Working (src : Source) (first : Nat) (e : Entry) (s : State) : Prop where
  there : src.tree.get? e.offset = some e
  ready : Ready src first s
  leads : Leads src s e.offset

/-- The entry was built by a run between the two states, which started at work, and what was known
at its end still is. -/
structure Worked (src : Source) (first : Nat) (e : Entry) (r : Option SymbolId) (s₁ s₂ s : State) :
    Prop where
  work : Working src first e s₁
  pending : slot s₁ e.offset = .pending none
  runs : ∃ steps, (build src (resolveWithin src steps) e).run s₁ = (r, s₂)
  past : Since src s₂ s

/-- Every entry that has been answered was built so. -/
def Recorded (src : Source) (first : Nat) (s : State) : Prop :=
  ∀ offset d r, src.tree.get? offset = some d → d.tag ≠ .compileUnit → slot s offset = .resolved r →
    ∃ s₁ s₂, Worked src first d r s₁ s₂ s

theorem Recorded.grow (h : Recorded src first s) (since : Since src s s')
    (slots : ∀ offset r, slot s' offset = .resolved r → slot s offset = .resolved r) :
    Recorded src first s' := by
  intro offset d r hd tag resolved
  obtain ⟨s₁, s₂, worked⟩ := h offset d r hd tag (slots offset r resolved)
  exact ⟨s₁, s₂, { worked with past := worked.past.trans since }⟩

/-- An entry that is not settled by its mark was not settled before. -/
theorem Recorded.mark (h : Recorded src first s) {offset : Nat} {sl : Slot}
    (since : Since src s (s.mark offset sl)) (unsettled : ∀ r, sl ≠ .resolved r) :
    Recorded src first (s.mark offset sl) := by
  refine h.grow since fun other r resolved => ?_
  by_cases same : other = offset
  · rw [same, slot_mark_self] at resolved
    exact absurd resolved (unsettled r)
  · rwa [slot_mark_of_ne _ _ same] at resolved

/-- One state is reached from the other by building, with some symbols in hand. -/
structure Moves (src : Source) (first : Nat) (entry : Option Nat) (hand : List SymbolId)
    (s s' : State) : Prop where
  ready : Ready src first s'
  grows : s.symbols.Grows hand s'.symbols
  slots : ∀ offset, Slot.Becomes (entry = some offset) (slot s offset) (slot s' offset)
  recorded : Recorded src first s → Recorded src first s'

namespace Moves

theorem refl (h : Ready src first s) : Moves src first entry hand s s :=
  ⟨h, .refl _, fun _ => .same _, id⟩

theorem trans (h : Moves src first entry hand s s') (h' : Moves src first entry hand s' s'') :
    Moves src first entry hand s s'' where
  ready := h'.ready
  grows := h.grows.trans h'.grows
  slots offset := (h.slots offset).trans (h'.slots offset)
  recorded before := h'.recorded (h.recorded before)

theorem widen (h : Moves src first none hand s s') (sub : ∀ id ∈ hand, id ∈ hand') :
    Moves src first entry hand' s s' :=
  ⟨h.ready, h.grows.widen sub, fun offset => (h.slots offset).imp nofun, h.recorded⟩

theorem mono (h : Moves src first entry hand s s') (sub : ∀ id ∈ hand, id ∈ hand') :
    Moves src first entry hand' s s' :=
  { h with grows := h.grows.widen sub }

theorem within (h : Moves src first none [] s s') : Moves src first entry hand s s' :=
  h.widen nofun

theorem leave (h : Moves src first entry hand s s')
    (new : ∀ id ∈ hand, s.symbols.size ≤ id.index) : Moves src first entry [] s s' :=
  ⟨h.ready, h.grows.leave new, h.slots, h.recorded⟩

theorem since (h : Moves src first entry hand s s') : Since src s s' :=
  ⟨h.grows.develops, fun offset _ _ _ _ => (h.slots offset).told⟩

theorem fresh (h : Moves src first entry hand s s') {r : Option SymbolId}
    (before : ∀ id, r = some id → Fresh first s.symbols id) (id : SymbolId) (hid : r = some id) :
    Fresh first s'.symbols id :=
  (before id hid).grow h.grows.size_le

theorem slot_eq (h : Moves src first none hand s s') {offset : Nat}
    (asked : slot s offset ≠ .unresolved) : slot s' offset = slot s offset :=
  ((h.slots offset).imp nofun).eq_of_ne_unresolved asked

theorem pending (h : Moves src first none hand s s') {v : Option SymbolId} {offset : Nat}
    (before : slot s offset = .pending v) : slot s' offset = .pending v :=
  (h.slot_eq (by rw [before]; nofun)).trans before

end Moves

theorem Working.grow (h : Working src first e s) (moves : Moves src first entry hand s s') :
    Working src first e s' where
  there := h.there
  ready := moves.ready
  leads waiting d v hd pending := by
    have step := moves.slots waiting
    rw [pending] at step
    obtain ⟨v', before⟩ := step.of_pending
    exact h.leads waiting d v' hd before

/-! ## Steps -/

namespace Ready

/-- A step that changes neither the symbols nor the slots. -/
theorem beside (h : Ready src first s) (symbols : s'.symbols = s.symbols)
    (slots : ∀ offset, slot s' offset = slot s offset) : Moves src first entry hand s s' where
  ready :=
    { first_le := symbols ▸ h.first_le
      told := fun offset id told => symbols ▸ h.told offset id (slots offset ▸ told)
      hops := fun id n next => symbols ▸ h.hops id n next
      places := fun id low empty => by
        obtain ⟨offset, d, hd, tag, waits⟩ := h.places id low (symbols ▸ empty)
        exact ⟨offset, d, hd, tag, (slots offset).trans waits⟩ }
  grows := symbols ▸ .refl _
  slots offset := slots offset ▸ .same _
  recorded before := before.grow (.beside symbols slots) fun offset _ resolved =>
    slots offset ▸ resolved

/-- An entry is told nothing but a symbol of the builder, and leaves no empty place. -/
theorem mark (h : Ready src first s) {offset : Nat} {sl : Slot}
    (fresh : ∀ id, sl.told? = some (some id) → Fresh first s.symbols id)
    (filled : ∀ id, slot s offset = .pending (some id) → s.symbols.get? id ≠ some .placeholder) :
    Ready src first (s.mark offset sl) where
  first_le := h.first_le
  hops := h.hops
  told other id told := by
    by_cases same : other = offset
    · rw [same, slot_mark_self] at told
      exact fresh id told
    · rw [slot_mark_of_ne _ _ same] at told
      exact h.told other id told
  places id low empty := by
    obtain ⟨other, d, hd, tag, waits⟩ := h.places id low empty
    refine ⟨other, d, hd, tag, ?_⟩
    rw [slot_mark_of_ne, waits]
    rintro rfl
    exact filled id waits empty

/-- A step that does not touch the slots. -/
theorem change (h : Ready src first s) {symbols : Symbol.Table}
    (grows : s.symbols.Grows hand symbols)
    (hops : ∀ id x next, first ≤ id.index → symbols.get? id = some x → x.next? = some next →
      s.symbols.get? id = some x ∨ Fresh first symbols next)
    (places : ∀ id, symbols.get? id = some .placeholder →
      s.symbols.get? id = some .placeholder) :
    Moves src first entry hand s { s with symbols } where
  ready :=
    { first_le := Nat.le_trans h.first_le grows.size_le
      told := fun offset id told => (h.told offset id told).grow grows.size_le
      hops := fun id n next low hop => by
        obtain ⟨x, here, goes⟩ := hop.exists_next
        rcases hops id x next low here goes with before | fresh
        · exact (h.hops id n next low (hop.congr (before.trans here.symm))).grow grows.size_le
        · exact fresh
      places := fun id low empty => h.places id low (places id empty) }
  grows := grows
  slots _ := .same _
  recorded before := before.grow ⟨grows.develops, fun _ _ _ _ _ told => told⟩ fun _ _ h => h

theorem note (h : Ready src first s) (event : Event) :
    Moves src first entry hand s (s.note event) :=
  h.beside rfl fun _ => rfl

theorem nameOf (h : Ready src first s) {label name : String}
    (eq : (Build.nameOf src e label).run s = (name, s')) : Moves src first entry hand s s' := by
  rw [of_run_nameOf eq]
  exact h.beside rfl fun _ => rfl

theorem push (h : Ready src first s) {x : Symbol} (still : x.Still) :
    Moves src first entry hand s { s with symbols := (s.symbols.push x).2 } := by
  have known {id : SymbolId} {y : Symbol} (here : (s.symbols.push x).2.get? id = some y)
      (ne : y ≠ x) : s.symbols.get? id = some y := by
    rw [Symbol.Table.get?_push] at here
    split at here
    · exact absurd (Option.some.inj here).symm ne
    · exact here
  refine h.change (.push (Symbol.Within.refl hand) _ x) (fun id y next _ here goes => ?_)
    (fun id empty => known empty still.1.symm)
  refine .inl (known here fun same => ?_)
  rw [same, still.2] at goes
  cases goes

/-- The place in hand is filled.  A walk goes on from it to a symbol of the builder. -/
theorem fill (h : Ready src first s) {x : Symbol} (mine : id ∈ hand)
    (empty : s.symbols.get? id = some .placeholder) (ne : x ≠ .placeholder)
    (next : ∀ next, x.next? = some next → Fresh first s.symbols next) :
    Moves src first entry hand s { s with symbols := s.symbols.fill id x } := by
  have full : (s.symbols.fill id x).get? id = some x := Symbol.Table.get?_fill_self empty
  have grows : s.symbols.Grows hand (s.symbols.fill id x) :=
    .fill (Symbol.Within.refl _) (Symbol.Within.free mine _ _ (.fill x))
  refine h.change grows (fun other y i _ here goes => ?_) fun other here => ?_
  · by_cases same : other = id
    · rw [same] at here
      cases full.symm.trans here
      exact .inr ((next i goes).grow grows.size_le)
    · rw [Symbol.Table.get?_fill_of_ne _ x same] at here
      exact .inl here
  · by_cases same : other = id
    · rw [same] at here
      exact absurd (Option.some.inj (full.symm.trans here)) ne
    · rwa [Symbol.Table.get?_fill_of_ne _ x same] at here

/-- A step that changes symbols and fills no place. -/
theorem touch (h : Ready src first s) {symbols : Symbol.Table}
    (grows : s.symbols.Grows hand symbols) (size : symbols.size = s.symbols.size)
    (kept : ∀ id, s.symbols.get? id = some .placeholder →
      symbols.get? id = some .placeholder) :
    Moves src first entry hand s { s with symbols } := by
  have before {id : SymbolId} {y : Symbol} (here : symbols.get? id = some y) :
      ∃ x, s.symbols.get? id = some x ∧ x.Develops y := by
    have inside : id.index < s.symbols.size := by
      rw [← size]
      exact Symbol.Table.lt_size_of_get? here
    have there : s.symbols.get? id = some _ := Array.getElem?_eq_getElem inside
    obtain ⟨y', here', within⟩ := grows.symbols id _ there
    cases here.symm.trans here'
    exact ⟨_, there, within.develops⟩
  refine h.change grows (fun id y next _ here goes => ?_) fun id empty => ?_
  · obtain ⟨x, there, develops⟩ := before here
    by_cases place : x = .placeholder
    · subst place
      cases here.symm.trans (kept id there)
      cases goes
    · rw [develops.of_ne_placeholder_of_next place (by rw [goes]; nofun)]
      exact .inl there
  · obtain ⟨x, there, develops⟩ := before empty
    rw [develops.placeholder_of_placeholder] at there
    exact there

/-- The symbol in hand takes up parts. -/
theorem update (h : Ready src first s) {f : Symbol → Symbol} (mine : id ∈ hand)
    (develops : ∀ x : Symbol, x.Develops (f x)) (empty : f .placeholder = .placeholder) :
    Moves src first entry hand s { s with symbols := s.symbols.update id f } := by
  refine h.touch (.update (Symbol.Within.refl hand) fun x _ =>
    Symbol.Within.free mine x _ (develops x)) (Symbol.Table.size_update ..) fun other place => ?_
  by_cases same : other = id
  · subst same
    rw [Symbol.Table.get?_update_self, place, Option.map_some, empty]
  · rw [Symbol.Table.get?_update_of_ne _ _ same, place]

theorem updateFunction (h : Ready src first s) {f : Symbol.Function → Symbol.Function}
    (mine : id ∈ hand) (develops : ∀ g : Symbol.Function, g.Develops (f g)) :
    Moves src first entry hand s { s with symbols := s.symbols.updateFunction id f } :=
  h.update mine (fun x => by
    cases x with
    | function g => exact .function (develops g)
    | _ => exact .same _) rfl

end Ready

/-! ## Requests -/

/-- Asked for an entry that everyone waits for, the resolver moves on and answers with a symbol of
the builder. -/
def Serves (src : Source) (first : Nat) (resolve : Resolver) : Prop :=
  ∀ offset s r s', Ready src first s → Leads src s offset → (resolve offset).run s = (r, s') →
    Moves src first none [] s s' ∧ ∀ id, r = some id → Fresh first s'.symbols id

namespace Working

theorem ask (h : Working src first e s) (serves : Serves src first resolve) {offset : Nat}
    (asks : Asks src e.offset offset) {r : Option SymbolId}
    (eq : (resolve offset).run s = (r, s')) :
    Moves src first none [] s s' ∧ ∀ id, r = some id → Fresh first s'.symbols id :=
  serves offset s r s' h.ready
    (fun waiting d v hd pending => (h.leads waiting d v hd pending).tail asks) eq

theorem typeOf (h : Working src first e s) (serves : Serves src first resolve)
    (hc : c ∈ e.preorder) {stored : Option SymbolId}
    (eq : (typeOf src resolve c).run s = (stored, s')) :
    Moves src first none [] s s' ∧ ∀ id, stored = some id → Fresh first s'.symbols id := by
  unfold Build.typeOf at eq
  split at eq
  · rename_i target href
    obtain ⟨_, _, ⟨⟩, eq⟩ := run_bind_eq.1 eq
    obtain ⟨_, _, ⟨⟩, eq⟩ := run_bind_eq.1 eq
    have noted : Moves src first none [] s (s.note (.followed c.offset target (slot s target))) :=
      h.ready.note _
    obtain ⟨moves, fresh⟩ := (h.grow noted).ask serves ⟨e, c, h.there, hc, .inr href⟩ eq
    exact ⟨noted.trans moves, fresh⟩
  · cases eq
    exact ⟨.refl h.ready, fun id absent => absurd absent (Option.some_ne_none id).symm⟩

end Working

/-! ## Builders that expose nothing -/

/-- Run while the entry is at work, the builder does nothing but move on. -/
def Calm (src : Source) (first : Nat) (e : Entry) (hand : List SymbolId) (m : Build α) : Prop :=
  ∀ s a s', Working src first e s → m.run s = (a, s') → Moves src first none hand s s'

namespace Calm

theorem pure (a : α) : Calm src first e hand (Pure.pure a : Build α) := by
  rintro s _ _ work ⟨⟩
  exact .refl work.ready

theorem bind {m : Build α} {f : α → Build β} (h : Calm src first e hand m)
    (h' : ∀ a, Calm src first e hand (f a)) : Calm src first e hand (m >>= f) := by
  intro s b s' work eq
  obtain ⟨a, middle, run, eq⟩ := run_bind_eq.1 eq
  have moves := h s a middle work run
  exact moves.trans (h' a middle b s' (work.grow moves) eq)

theorem widen {m : Build α} (h : Calm src first e hand m) (sub : ∀ id ∈ hand, id ∈ hand') :
    Calm src first e hand' m :=
  fun s a s' work eq => (h s a s' work eq).widen sub

theorem get : Calm src first e hand (MonadState.get : Build State) := by
  rintro s _ _ work ⟨⟩
  exact .refl work.ready

theorem nameOf (label : String) : Calm src first e hand (Build.nameOf src c label) :=
  fun _ _ _ work eq => work.ready.nameOf eq

theorem typeOf (serves : Serves src first resolve) (hc : c ∈ e.preorder) :
    Calm src first e hand (Build.typeOf src resolve c) :=
  fun _ _ _ work eq => (work.typeOf serves hc eq).1.within

/-- The entry asks for an entry under it. -/
theorem child (serves : Serves src first resolve) (hc : c ∈ e.preorder) :
    Calm src first e hand (resolve c.offset) :=
  fun _ _ _ work eq => (work.ask serves ⟨e, c, work.there, hc, .inl rfl⟩ eq).1.within

theorem push {x : Symbol} (still : x.Still) : Calm src first e hand (Build.push x) := by
  intro s id s' work eq
  obtain ⟨-, rfl⟩ := of_run_push eq
  exact work.ready.push still

theorem forM {l : List Entry} {f : Entry → Build Unit}
    (h : ∀ c ∈ l, Calm src first e hand (f c)) : Calm src first e hand (l.forM f) := by
  intro s _ s' work eq
  exact run_forM (P := fun _ s₁ => Moves src first none hand s s₁) eq (.refl work.ready)
    fun _ c s₁ s₂ mem sofar run => sofar.trans (h c mem s₁ _ s₂ (work.grow sofar) run)

theorem update {f : Symbol → Symbol} (mine : id ∈ hand) (develops : ∀ x : Symbol, x.Develops (f x))
    (empty : f .placeholder = .placeholder) : Calm src first e hand (change (·.update id f)) := by
  intro s _ s' work eq
  rw [of_run_change eq]
  exact work.ready.update mine develops empty

end Calm

/-! ## Entries that tell a symbol -/

/-- The entry has been built, and this is the answer. -/
structure Completes (src : Source) (first : Nat) (e : Entry) (s : State) (r : Option SymbolId)
    (s' : State) : Prop where
  moves : Moves src first (some e.offset) [] s s'
  fresh : ∀ id, r = some id → Fresh first s'.symbols id
  /-- What the entry has told is the answer, and no longer a place. -/
  told : ∀ id, slot s' e.offset = .pending (some id) →
    r = some id ∧ s'.symbols.get? id ≠ some .placeholder

theorem Completes.of_moves {r : Option SymbolId} (pending : slot s e.offset = .pending none)
    (moves : Moves src first none [] s s') (fresh : ∀ id, r = some id → Fresh first s'.symbols id) :
    Completes src first e s r s' where
  moves := moves.within
  fresh := fresh
  told id waits := by
    cases waits.symm.trans (moves.pending pending)

theorem Completes.after {r : Option SymbolId} (moves : Moves src first none [] s s')
    (h : Completes src first e s' r s'') : Completes src first e s r s'' :=
  { h with moves := moves.within.trans h.moves }

/-- The entry has told its symbol, which is no longer a place. -/
theorem Completes.of_told (moves : Moves src first (some e.offset) hand s s')
    (new : ∀ i ∈ hand, s.symbols.size ≤ i.index) (told : slot s' e.offset = .pending (some id))
    (full : s'.symbols.get? id ≠ some .placeholder) : Completes src first e s (some id) s' where
  moves := moves.leave new
  fresh := by
    rintro _ ⟨⟩
    exact moves.ready.told e.offset id (by rw [told]; rfl)
  told other waits := by
    cases told.symm.trans waits
    exact ⟨rfl, full⟩

/-- The entry has told its symbol, and then goes on with some symbols in hand. -/
theorem Completes.of_appeared {x : Symbol} (before : Moves src first (some e.offset) hand s s')
    (mine : slot s' e.offset = .pending (some id)) (there : s'.symbols.get? id = some x)
    (still : x.Still) (more : Moves src first none hand s' s'')
    (new : ∀ i ∈ hand, s.symbols.size ≤ i.index) : Completes src first e s (some id) s'' := by
  refine .of_told (before.trans (more.widen fun _ mem => mem)) new (more.pending mine)
    fun empty => still.1 ?_
  obtain ⟨y, here, within⟩ := more.grows.symbols id x there
  cases here.symm.trans empty
  exact within.develops.placeholder_of_placeholder

namespace Working

/-- The symbol may be a place, since it is told at once. -/
theorem ready_appear (h : Working src first e s) (pending : slot s e.offset = .pending none)
    (tag : e.tag ≠ .compileUnit) (hid : id = ⟨s.symbols.size⟩) {x : Symbol} (next : x.next? = none)
    (journal : List Event) :
    Ready src first
      ({ s with symbols := (s.symbols.push x).2, journal }.mark e.offset (.pending (some id))) := by
  have size_le : s.symbols.size ≤ (s.symbols.push x).2.size := (Symbol.Table.lt_size_push _ x).le
  have known {other : SymbolId} (ne : other ≠ id) :
      (s.symbols.push x).2.get? other = s.symbols.get? other :=
    Symbol.Table.get?_push_of_ne x (hid ▸ ne)
  have here : (s.symbols.push x).2.get? id = some x :=
    hid ▸ Symbol.Table.get?_push_self s.symbols x
  refine ⟨Nat.le_trans h.ready.first_le size_le, fun offset other told => ?_,
    fun other n i low hop => ?_, fun other low empty => ?_⟩
  · by_cases same : offset = e.offset
    · rw [same, slot_mark_self] at told
      cases told
      rw [hid]
      exact ⟨h.ready.first_le, Symbol.Table.lt_size_push _ x⟩
    · rw [slot_mark_of_ne _ _ same] at told
      exact (h.ready.told offset other told).grow size_le
  · by_cases same : other = id
    · obtain ⟨y, there, goes⟩ := hop.exists_next
      rw [same] at there
      cases here.symm.trans there
      cases next.symm.trans goes
    · exact (h.ready.hops other n i low (hop.congr (known same).symm)).grow size_le
  · by_cases same : other = id
    · exact ⟨e.offset, e, h.there, tag, same ▸ slot_mark_self _ _ _⟩
    · obtain ⟨offset, d, hd, htag, waits⟩ := h.ready.places other low ((known same).symm.trans empty)
      refine ⟨offset, d, hd, htag, ?_⟩
      rw [slot_mark_of_ne]
      · exact waits
      · rintro rfl
        cases pending.symm.trans waits

/-- The entry at work puts a symbol behind all others and tells it. -/
theorem appear (h : Working src first e s) (pending : slot s e.offset = .pending none)
    (tag : e.tag ≠ .compileUnit) (hid : id = ⟨s.symbols.size⟩) {x : Symbol} (next : x.next? = none)
    (journal : List Event) :
    Moves src first (some e.offset) [id] s
      ({ s with symbols := (s.symbols.push x).2, journal }.mark e.offset
        (.pending (some id))) where
  ready := h.ready_appear pending tag hid next journal
  grows := .push (Symbol.Within.refl [id]) _ x
  slots offset := by
    by_cases same : offset = e.offset
    · rw [same, slot_mark_self, pending]
      exact .expose rfl id
    · rw [slot_mark_of_ne _ _ same]
      exact .same _
  recorded before := by
    have pushed : Since src s { s with symbols := (s.symbols.push x).2, journal } :=
      ⟨.push (fun _ => .same) _ x, fun _ _ _ _ _ told => told⟩
    refine (before.grow pushed fun _ _ resolved => resolved).mark (.mark ?_) nofun
    intro d v _ _ told
    cases (congrArg Slot.told? pending).symm.trans told

/-- Whatever is built for a place fills it. -/
theorem inPlace (h : Working src first e s) (pending : slot s e.offset = .pending none)
    (tag : e.tag ≠ .compileUnit) {build : Build Symbol}
    (eq : (Build.inPlace e build).run s = (id, s'))
    (built : ∀ s₁ x s₂, Working src first e s₁ → build.run s₁ = (x, s₂) →
      Moves src first none [] s₁ s₂ ∧ x ≠ .placeholder ∧
        ∀ next, x.next? = some next → Fresh first s₂.symbols next) :
    Completes src first e s (some id) s' := by
  obtain ⟨hid, x, s₂, run, rfl⟩ := of_run_inPlace eq
  have placed : Moves src first (some e.offset) [id] s (s.withPlace e id) :=
    h.appear pending tag hid (x := .placeholder) rfl _
  have place : (s.withPlace e id).symbols.get? id = some .placeholder := by
    rw [hid]
    exact Symbol.Table.get?_push_self s.symbols .placeholder
  obtain ⟨more, ne, next⟩ := built _ x s₂ (h.grow placed) run
  have empty : s₂.symbols.get? id = some .placeholder := more.grows.get?_eq place
  have filled : Moves src first (some e.offset) [id] s₂
      { s₂ with symbols := s₂.symbols.fill id x } :=
    more.ready.fill (List.mem_singleton_self id) empty ne next
  have all : Moves src first (some e.offset) [id] s (s₂.withFilled id x) :=
    (placed.trans more.within).trans (filled.trans (filled.ready.note _))
  refine .of_told all (by simp [hid, Symbol.Table.size]) (more.pending (slot_mark_self _ _ _))
    fun here => ne ?_
  exact Option.some.inj ((Symbol.Table.get?_fill_self empty).symm.trans here)

/-- A symbol that takes up its parts is told from the start, and is never a place. -/
theorem withParts (h : Working src first e s) (pending : slot s e.offset = .pending none)
    (tag : e.tag ≠ .compileUnit) {x : Symbol} {parts : SymbolId → Build Unit}
    (eq : (Build.withParts e x parts).run s = (id, s')) (still : x.Still)
    (calm : Calm src first e [id] (parts id)) : Completes src first e s (some id) s' := by
  obtain ⟨hid, run⟩ := of_run_withParts eq
  have told := h.appear pending tag hid still.2 s.journal
  refine .of_appeared told (slot_mark_self _ _ _) ?_ still (calm _ _ s' (h.grow told) run) ?_
  · rw [hid]
    exact Symbol.Table.get?_push_self s.symbols x
  · simp [hid, Symbol.Table.size]

end Working

end Build
end Dwarf2
