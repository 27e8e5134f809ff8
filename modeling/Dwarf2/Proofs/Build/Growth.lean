/-
How the state grows while symbols are built.

`Grows` says what any stretch of building does: nothing that was there is taken back, the
events of the journal are sound, and every entry that is settled has the symbols that are due
to it, one each.  In the middle of an entry there are exceptions for what is at `Work`.  They
end when the entry is settled: `Built.grows_settled`.

What is due to an entry beyond that is left to the run that has built it.  The run is kept in
mind for every entry that is settled, with what it has left behind: `Runs` and `Lasts`.
-/
import Dwarf2.Proofs.Build.Description

namespace Dwarf2

/-- The symbol stands for no entry of its own, and has no parameters. -/
structure Symbol.Plain (x : Symbol) : Prop where
  kindless : x.kind? = none
  bare : ∀ g, x = .signature g → g.parameters = #[]

/-- Every signature starts so. -/
theorem Symbol.Plain.signature (returnType : Option SymbolId) :
    (Symbol.signature { returnType }).Plain :=
  ⟨rfl, fun _ h => Symbol.signature.inj h ▸ rfl⟩

namespace Build

/-- What a builder has in hand. -/
structure Work where
  /-- The offset of the entry, which may expose itself. -/
  entry : Option Nat := none
  /-- Symbols that still change and are not accounted for. -/
  own : List SymbolId := []
  /-- Places that are reserved and not filled. -/
  places : List SymbolId := []

variable {src : Source} {w : Work} {s s' s'' : State}

/-! ## Events -/

def Event.concerns (id : SymbolId) : Event → Bool
  | .reserved other | .filled other _ => other = id
  | _ => false

/-- What happened to the place of a symbol, the last first. -/
def placements (s : State) (id : SymbolId) : List Event :=
  s.journal.filter (·.concerns id)

theorem placements_note_of_concerns {event : Event} {id : SymbolId}
    (h : event.concerns id = true) :
    placements (s.note event) id = event :: placements s id :=
  List.filter_cons_of_pos h

theorem placements_note_of_not_concerns {event : Event} {id : SymbolId}
    (h : event.concerns id = false) : placements (s.note event) id = placements s id :=
  List.filter_cons_of_neg (by rw [h]; exact Bool.false_ne_true)

/-- An identifier that is answered is the one that the slot tells.  The root is left out, since
its slot tells another one when the unit is built again. -/
def Event.Sound (src : Source) (s : State) : Event → Prop
  | .answered offset id =>
    match src.tree.get? offset with
    | none => id = none
    | some _ => slot s offset ≠ .unresolved ∧
        ∀ i, id = some i → offset ≠ src.tree.root.offset → (slot s offset).told? = some (some i)
  | .exhausted _ => False
  | _ => True

theorem Event.Sound.later {event : Event} (h : event.Sound src s) (later : Later src s s') :
    event.Sound src s' := by
  cases event with
  | answered offset id =>
    cases found : src.tree.get? offset with
    | none =>
      simp only [Event.Sound, found] at h ⊢
      exact h
    | some e =>
      simp only [Event.Sound, found] at h ⊢
      exact ⟨later.asked offset h.1, fun i hi ne => later.told offset _ ne (h.2 i hi ne)⟩
  | exhausted offset => exact h
  | followed | reserved | filled => trivial

/-! ## Runs -/

/-- How many entries have not been asked for. -/
def unresolved (src : Source) (s : State) : Nat :=
  src.tree.index.keys.countP fun offset => slot s offset = .unresolved

/-- The entry is being built. -/
structure AtWork (src : Source) (budget : Nat) (e : Entry) (s : State) : Prop where
  there : src.tree.get? e.offset = some e
  asked : slot s e.offset ≠ .unresolved
  left : unresolved src s ≤ budget
  waiting : ∀ offset d, src.tree.get? offset = some d → slot s offset = .pending none →
    offset ≠ e.offset → Awaits src d e.offset

/-- The entry is built between the two states, all of it, and answered with `r`. -/
def Runs (src : Source) (e : Entry) (s s' : State) (r : Option SymbolId) : Prop :=
  ∃ steps, AtWork src steps e s ∧ slot s e.offset = .pending none ∧
    (build src (resolveWithin src steps) e).run s = (r, s')

/-- What has been built between the first two states has not changed since.  Symbols that are
in hand were there before, or have come after. -/
structure Lasts (src : Source) (own : List SymbolId) (s s' s'' : State) : Prop where
  size_le : s'.symbols.size ≤ s''.symbols.size
  later : Later src s' s''
  apart : ∀ id ∈ own, id.index < s.symbols.size ∨ s'.symbols.size ≤ id.index
  kept : ∀ id, s.symbols.size ≤ id.index → id.index < s'.symbols.size →
    s''.symbols.get? id = s'.symbols.get? id

/-! ## Growth -/

/-- The entry at the offset is asked for between the two states, and answered with `r`. -/
def Settles (s s' : State) (offset : Nat) (r : Option SymbolId) : Prop :=
  slot s offset = .unresolved ∧ slot s' offset = .resolved r

/-- The symbols between the two states, less those that a builder owns. -/
def New (own : List SymbolId) (s s' : State) (id : SymbolId) : Prop :=
  s.symbols.size ≤ id.index ∧ id.index < s'.symbols.size ∧ id ∉ own

/-- The signature is that of the entry: of a type of functions, or of a function. -/
def Signs (new : SymbolId → Prop) (s : State) (e : Entry) (r : Option SymbolId) (id : SymbolId) :
    Prop :=
  e.tag = .subroutineType ∧ r = some id ∨
    e.tag = .subprogram ∧ ∃ f, Stands new s r (.function f) ∧ f.signature = id

theorem Signs.imp {new new' : SymbolId → Prop} {e : Entry} {r : Option SymbolId} {id : SymbolId}
    (h : Signs new s e r id)
    (kept : ∀ id x, new id → s.symbols.get? id = some x →
      s'.symbols.get? id = some x ∧ new' id) : Signs new' s' e r id := by
  rcases h with h | ⟨tag, f, stands, type⟩
  · exact .inl h
  · exact .inr ⟨tag, f, stands.imp kept, type⟩

/-- One state is reached from the other by building. -/
structure Grows (src : Source) (w : Work) (s s' : State) : Prop where
  size_le : s.symbols.size ≤ s'.symbols.size
  kept : ∀ id, id.index < s.symbols.size → id ∉ w.own →
    s'.symbols.get? id = s.symbols.get? id
  filled : ∀ id, id ∉ w.places → s'.symbols.get? id = some .placeholder →
    s.symbols.get? id = some .placeholder
  slots : ∀ offset, Slot.Becomes (w.entry = some offset) (slot s offset) (slot s' offset)
  noted : ∀ event ∈ s.journal, event ∈ s'.journal
  sound : ∀ event ∈ s'.journal, event ∈ s.journal ∨ event.Sound src s'
  placed : ∀ id, id ∉ w.places → placements s' id = placements s id ∨
    s.symbols.size ≤ id.index ∧ id.index < s'.symbols.size ∧
      placements s' id = [.filled id true, .reserved id] ++ placements s id
  described : ∀ offset e r, src.tree.get? offset = some e → Settles s s' offset r →
    Describes src (Refers src s' e) (New w.own s s') s' e r
  traced : ∀ offset e r, src.tree.get? offset = some e → e.tag ≠ .compileUnit →
    Settles s s' offset r → ∃ s₁ s₂, Runs src e s₁ s₂ r ∧ s.symbols.size ≤ s₁.symbols.size ∧
      Lasts src w.own s₁ s₂ s'
  owned : ∀ id x k, s.symbols.size ≤ id.index → id ∉ w.own → s'.symbols.get? id = some x →
    x.kind? = some k →
      ∃ offset e, src.tree.get? offset = some e ∧ e.tag.kind? = some k ∧
        Settles s s' offset (some id)
  signed : ∀ id g, s.symbols.size ≤ id.index → id ∉ w.own →
    s'.symbols.get? id = some (.signature g) → g.parameters ≠ #[] →
      ∃ offset e r, src.tree.get? offset = some e ∧ Settles s s' offset r ∧
        Signs (New w.own s s') s' e r id
  unique : ∀ offset offset' e e' k k' id, src.tree.get? offset = some e →
    src.tree.get? offset' = some e' → e.tag.kind? = some k → e'.tag.kind? = some k' →
      Settles s s' offset (some id) → Settles s s' offset' (some id) → offset = offset'

theorem New.widen {own own' : List SymbolId} {id : SymbolId} (h : New own s s' id)
    (apart : ∀ id ∈ own', id ∈ own ∨ id.index < s.symbols.size ∨ s'.symbols.size ≤ id.index) :
    New own' s s' id := by
  refine ⟨h.1, h.2.1, fun hin => ?_⟩
  rcases apart id hin with hin | hin | hin
  · exact h.2.2 hin
  · exact absurd h.1 (Nat.not_le.2 hin)
  · exact absurd h.2.1 (Nat.not_lt.2 hin)

namespace Settles

variable {offset : Nat} {r : Option SymbolId}

/-- What is settled between two states is settled before or after a state in between. -/
theorem split (h : Settles s s'' offset r) {P P' : Prop}
    (before : Slot.Becomes P (slot s offset) (slot s' offset))
    (after : Slot.Becomes P' (slot s' offset) (slot s'' offset)) :
    Settles s s' offset r ∨ Settles s' s'' offset r := by
  obtain ⟨start, stop⟩ := h
  rw [start] at before
  rw [stop] at after
  generalize hmiddle : slot s' offset = middle at before after
  cases before with
  | same => exact .inr ⟨hmiddle, stop⟩
  | settle id =>
    cases after with
    | same => exact .inl ⟨start, hmiddle⟩

theorem before (h : Settles s s' offset r) {P : Prop}
    (after : Slot.Becomes P (slot s' offset) (slot s'' offset)) : Settles s s'' offset r := by
  obtain ⟨start, stop⟩ := h
  rw [stop] at after
  refine ⟨start, ?_⟩
  generalize slot s'' offset = last at after
  cases after with
  | same => rfl

theorem after (h : Settles s' s'' offset r) {P : Prop}
    (before : Slot.Becomes P (slot s offset) (slot s' offset)) : Settles s s'' offset r := by
  obtain ⟨start, stop⟩ := h
  rw [start] at before
  refine ⟨?_, stop⟩
  generalize slot s offset = first at before
  cases before with
  | same => rfl

/-- What is settled elsewhere does not depend on the mark of an entry. -/
theorem mark_iff {other : Nat} (sl : Slot) (ne : offset ≠ other) :
    Settles s (s'.mark other sl) offset r ↔ Settles s s' offset r := by
  rw [Settles, Settles, slot_mark_of_ne s' sl ne]

theorem between_marks_iff {other : Nat} (first last : Slot) (ne : offset ≠ other) :
    Settles s (s'.mark other last) offset r ↔ Settles (s.mark other first) s' offset r := by
  rw [mark_iff last ne, Settles, Settles, slot_mark_of_ne s first ne]

theorem ne_of_mark {other : Nat} {v : Option SymbolId}
    (h : Settles (s.mark other (.pending v)) s' offset r) : offset ≠ other := by
  rintro rfl
  have start := h.1
  rw [slot_mark_self] at start
  cases start

theorem eq_of_mark {v : Option SymbolId} (h : Settles s (s'.mark offset (.resolved v)) offset r) :
    r = v := by
  have stop := h.2
  rw [slot_mark_self] at stop
  cases stop
  rfl

end Settles

/-- An entry may be settled on what it tells.  The root may be settled on anything. -/
theorem Later.settle {offset : Nat} {r : Option SymbolId}
    (told : offset ≠ src.tree.root.offset → ∀ v, (slot s offset).told? = some v → v = r) :
    Later src s (s.mark offset (.resolved r)) := by
  refine ⟨fun other asked => ?_, fun other v ne hv => ?_, fun _ h => h⟩
  · by_cases same : other = offset
    · rw [same, slot_mark_self]
      nofun
    · rw [slot_mark_of_ne _ _ same]
      exact asked
  · by_cases same : other = offset
    · subst same
      rw [slot_mark_self, told ne v hv]
      rfl
    · rw [slot_mark_of_ne _ _ same]
      exact hv

theorem Grows.later (h : Grows src w s s') : Later src s s' :=
  ⟨fun offset => (h.slots offset).ne_unresolved, fun offset _ _ hv => (h.slots offset).told hv,
    h.noted⟩

namespace Lasts

variable {own own' : List SymbolId} {s₁ s₂ : State}

/-- Only symbols in hand change, and they are none of those that were built. -/
theorem grow (h : Lasts src w.own s₁ s₂ s') (grows : Grows src w s' s'') :
    Lasts src w.own s₁ s₂ s'' where
  size_le := Nat.le_trans h.size_le grows.size_le
  later := h.later.trans grows.later
  apart := h.apart
  kept id low high := by
    have clear : id ∉ w.own := fun hin => by
      have := h.apart id hin
      omega
    rw [grows.kept id (Nat.lt_of_lt_of_le high h.size_le) clear, h.kept id low high]

/-- Marks and notes change no symbol. -/
theorem beside (h : Lasts src own s₁ s₂ s') (later : Later src s' s'')
    (symbols : s''.symbols = s'.symbols) : Lasts src own s₁ s₂ s'' where
  size_le := by rw [symbols]; exact h.size_le
  later := h.later.trans later
  apart := h.apart
  kept id low high := by rw [symbols]; exact h.kept id low high

theorem hold (h : Lasts src own s₁ s₂ s')
    (apart : ∀ id ∈ own', id.index < s₁.symbols.size ∨ s₂.symbols.size ≤ id.index) :
    Lasts src own' s₁ s₂ s' :=
  ⟨h.size_le, h.later, apart, h.kept⟩

end Lasts

namespace Grows

theorem refl (s : State) : Grows src w s s where
  size_le := Nat.le_refl _
  kept _ _ _ := rfl
  filled _ _ h := h
  slots _ := .same _
  noted _ h := h
  sound _ h := .inl h
  placed _ _ := .inl rfl
  described _ _ _ _ h := by
    obtain ⟨start, stop⟩ := h
    rw [start] at stop
    cases stop
  traced _ _ _ _ _ h := by
    obtain ⟨start, stop⟩ := h
    rw [start] at stop
    cases stop
  owned id x _ hid _ hx _ := by
    have := Symbol.Table.lt_size_of_get? hx
    omega
  signed id _ hid _ hx _ := by
    have := Symbol.Table.lt_size_of_get? hx
    omega
  unique _ _ _ _ _ _ _ _ _ _ _ h := by
    obtain ⟨start, stop⟩ := h
    rw [start] at stop
    cases stop

/-- The entry that settles on an identifier between two states has it between them. -/
theorem settled_new (h : Grows src w s s') {offset : Nat} {e : Entry} {k : Symbol.Kind}
    {id : SymbolId} (he : src.tree.get? offset = some e) (hk : e.tag.kind? = some k)
    (hs : Settles s s' offset (some id)) : New w.own s s' id := by
  obtain ⟨x, hnew, -⟩ := (h.described offset e _ he hs).stands_of_kind hk
  exact hnew

/-- What is new before a state in the middle stands behind it. -/
theorem new_before (h' : Grows src w s' s'') {id : SymbolId} {x : Symbol}
    (new : New w.own s s' id) (hx : s'.symbols.get? id = some x) :
    s''.symbols.get? id = some x ∧ New w.own s s'' id :=
  ⟨(h'.kept id new.2.1 new.2.2).trans hx, new.1, Nat.lt_of_lt_of_le new.2.1 h'.size_le, new.2.2⟩

theorem new_after (h : Grows src w s s') {id : SymbolId} (new : New w.own s' s'' id) :
    New w.own s s'' id :=
  ⟨Nat.le_trans h.size_le new.1, new.2⟩

theorem trans (h : Grows src w s s') (h' : Grows src w s' s'') :
    Grows src w s s'' where
  size_le := Nat.le_trans h.size_le h'.size_le
  kept id hid hown := by
    rw [h'.kept id (Nat.lt_of_lt_of_le hid h.size_le) hown, h.kept id hid hown]
  filled id hout hid := h.filled id hout (h'.filled id hout hid)
  slots offset := (h.slots offset).trans (h'.slots offset)
  noted event he := h'.noted event (h.noted event he)
  sound event he := by
    rcases h'.sound event he with he | he
    · rcases h.sound event he with he | he
      · exact .inl he
      · exact .inr (he.later h'.later)
    · exact .inr he
  placed id hout := by
    have le := h.size_le
    have le' := h'.size_le
    rcases h.placed id hout with eq | ⟨low, high, eq⟩ <;>
      rcases h'.placed id hout with eq' | ⟨low', high', eq'⟩
    · exact .inl (eq'.trans eq)
    · exact .inr ⟨by omega, high', by rw [eq', eq]⟩
    · exact .inr ⟨low, by omega, by rw [eq', eq]⟩
    · omega
  described offset e r he hs := by
    rcases hs.split (h.slots offset) (h'.slots offset) with hs | hs
    · exact (h.described offset e r he hs).later h'.later fun _ _ new hx => h'.new_before new hx
    · exact (h'.described offset e r he hs).later (.refl _) fun _ _ new hx =>
        ⟨hx, h.new_after new⟩
  traced offset e r he htag hs := by
    rcases hs.split (h.slots offset) (h'.slots offset) with hs | hs
    · obtain ⟨s₁, s₂, runs, le, lasts⟩ := h.traced offset e r he htag hs
      exact ⟨s₁, s₂, runs, le, lasts.grow h'⟩
    · obtain ⟨s₁, s₂, runs, le, lasts⟩ := h'.traced offset e r he htag hs
      exact ⟨s₁, s₂, runs, Nat.le_trans h.size_le le, lasts⟩
  owned id x k hid hown hx hk := by
    by_cases early : id.index < s'.symbols.size
    · rw [h'.kept id early hown] at hx
      obtain ⟨offset, e, he, htag, hs⟩ := h.owned id x k hid hown hx hk
      exact ⟨offset, e, he, htag, hs.before (h'.slots offset)⟩
    · obtain ⟨offset, e, he, htag, hs⟩ := h'.owned id x k (by omega) hown hx hk
      exact ⟨offset, e, he, htag, hs.after (h.slots offset)⟩
  signed id g hid hown hx hg := by
    by_cases early : id.index < s'.symbols.size
    · rw [h'.kept id early hown] at hx
      obtain ⟨offset, e, r, he, hs, signs⟩ := h.signed id g hid hown hx hg
      exact ⟨offset, e, r, he, hs.before (h'.slots offset),
        signs.imp fun _ _ new hx => h'.new_before new hx⟩
    · obtain ⟨offset, e, r, he, hs, signs⟩ := h'.signed id g (Nat.not_lt.1 early) hown hx hg
      exact ⟨offset, e, r, he, hs.after (h.slots offset),
        signs.imp fun _ _ new hx => ⟨hx, h.new_after new⟩⟩
  unique offset offset' e e' k k' id he he' hk hk' hs hs' := by
    rcases hs.split (h.slots offset) (h'.slots offset) with hs | hs <;>
      rcases hs'.split (h.slots offset') (h'.slots offset') with hs' | hs'
    · exact h.unique offset offset' e e' k k' id he he' hk hk' hs hs'
    -- One identifier cannot be new on both sides of the middle.
    · have := (h.settled_new he hk hs).2.1
      have := (h'.settled_new he' hk' hs').1
      omega
    · have := (h'.settled_new he hk hs).1
      have := (h.settled_new he' hk' hs').2.1
      omega
    · exact h'.unique offset offset' e e' k k' id he he' hk hk' hs hs'

/-- What is built with less in hand may go on in the middle of more, as far as the symbols that
are owned besides are not among those that are built. -/
theorem widen {w' : Work} (h : Grows src w s s')
    (hentry : ∀ offset, w.entry = some offset → w'.entry = some offset)
    (hown : ∀ id ∈ w.own, id ∈ w'.own) (hplaces : ∀ id ∈ w.places, id ∈ w'.places)
    (apart : ∀ id ∈ w'.own, id ∈ w.own ∨ id.index < s.symbols.size ∨ s'.symbols.size ≤ id.index) :
    Grows src w' s s' where
  size_le := h.size_le
  kept id hid hout := h.kept id hid fun hin => hout (hown id hin)
  filled id hout := h.filled id fun hin => hout (hplaces id hin)
  slots offset := (h.slots offset).imp (hentry offset)
  noted := h.noted
  sound := h.sound
  placed id hout := h.placed id fun hin => hout (hplaces id hin)
  described offset e r he hs :=
    (h.described offset e r he hs).later (.refl _) fun id x hnew hx => ⟨hx, hnew.widen apart⟩
  traced offset e r he htag hs := by
    obtain ⟨s₁, s₂, runs, le, lasts⟩ := h.traced offset e r he htag hs
    refine ⟨s₁, s₂, runs, le, lasts.hold fun id hid => ?_⟩
    rcases apart id hid with hin | hin | hin
    · exact lasts.apart id hin
    · exact .inl (Nat.lt_of_lt_of_le hin le)
    · exact .inr (Nat.le_trans lasts.size_le hin)
  owned id x k hid hout := h.owned id x k hid fun hin => hout (hown id hin)
  signed id g hid hout hx hg := by
    obtain ⟨offset, e, r, he, hs, signs⟩ :=
      h.signed id g hid (fun hin => hout (hown id hin)) hx hg
    exact ⟨offset, e, r, he, hs, signs.imp fun id x hnew hx => ⟨hx, hnew.widen apart⟩⟩
  unique := h.unique

/-- A builder with nothing in hand may be run by any other, which keeps what it owns. -/
theorem within {w' : Work} (h : Grows src {} s s')
    (apart : ∀ id ∈ w'.own, id.index < s.symbols.size ∨ s'.symbols.size ≤ id.index) :
    Grows src w' s s' :=
  h.widen (fun _ h => nomatch h) (fun _ h => absurd h List.not_mem_nil)
    (fun _ h => absurd h List.not_mem_nil) fun id hid => .inr (apart id hid)

/-- Places that have been filled need not be kept in mind. -/
theorem close {offset : Option Nat} {own places : List SymbolId}
    (h : Grows src ⟨offset, own, places⟩ s s')
    (filled : ∀ id ∈ places, s'.symbols.get? id ≠ some .placeholder)
    (placed : ∀ id ∈ places, s.symbols.size ≤ id.index ∧ id.index < s'.symbols.size ∧
      placements s' id = [.filled id true, .reserved id] ++ placements s id) :
    Grows src ⟨offset, own, []⟩ s s' :=
  { h with
    filled := fun id _ hid => by
      by_cases hin : id ∈ places
      · exact absurd hid (filled id hin)
      · exact h.filled id hin hid
    placed := fun id _ => by
      by_cases hin : id ∈ places
      · exact .inr (placed id hin)
      · exact h.placed id hin }

theorem pending_of_pending (h : Grows src w s s') {offset : Nat}
    (pending : slot s' offset = .pending none) : slot s offset = .pending none := by
  have step := h.slots offset
  rw [pending] at step
  exact step.of_pending_none

theorem ne_pending (h : Grows src w s s') {offset : Nat} (exposed : slot s offset ≠ .pending none) :
    slot s' offset ≠ .pending none :=
  fun pending => exposed (h.pending_of_pending pending)

/-- Only the entry at work changes its slot once it has been asked for. -/
theorem slot_eq {own places : List SymbolId} (h : Grows src ⟨none, own, places⟩ s s')
    {offset : Nat} (asked : slot s offset ≠ .unresolved) : slot s' offset = slot s offset :=
  ((h.slots offset).imp (fun h => nomatch h)).eq_of_ne_unresolved asked

theorem get?_eq (h : Grows src {} s s') {id : SymbolId} {x : Symbol}
    (hx : s.symbols.get? id = some x) : s'.symbols.get? id = some x :=
  (h.kept id (Symbol.Table.lt_size_of_get? hx) List.not_mem_nil).trans hx

end Grows

/-! ## An entry built -/

/-- The entry is built between the two states, which starts when its slot is marked, and
answered with `r`. -/
structure Built (src : Source) (e : Entry) (s s' : State) (r : Option SymbolId) : Prop where
  /-- What the entry owns is all that is not accounted for yet. -/
  grows : ∃ own, Grows src ⟨e.offset, own, []⟩ s s' ∧ (∀ id ∈ own, s.symbols.size ≤ id.index) ∧
    (∀ id ∈ own, ∀ x k, s'.symbols.get? id = some x → x.kind? = some k →
      e.tag.kind? = some k ∧ r = some id) ∧
    (∀ id ∈ own, ∀ g, s'.symbols.get? id = some (.signature g) → g.parameters ≠ #[] →
      Signs (New [] s s') s' e r id) ∧
    ∀ id k, r = some id → e.tag.kind? = some k → id ∈ own
  told : ∀ v, (slot s' e.offset).told? = some v → v = r
  describes : Describes src (Refers src s' e) (New [] s s') s' e r

/-- What changes besides the slot of an entry that is settled. -/
theorem Built.grows_settled {e : Entry} {r : Option SymbolId}
    (there : src.tree.get? e.offset = some e) (fresh : slot s e.offset = .unresolved)
    (h : Built src e (s.mark e.offset (.pending none)) s' r)
    (runs : Runs src e (s.mark e.offset (.pending none)) s' r) :
    Grows src {} s (s'.mark e.offset (.resolved r)) := by
  obtain ⟨⟨own, grows, behind, counted, signed, mine⟩, told, describes⟩ := h
  have other : ∀ offset, offset ≠ e.offset →
      Slot.Becomes False (slot s offset) (slot s' offset) := by
    intro offset ne
    have step := grows.slots offset
    rw [slot_mark_of_ne s _ ne] at step
    exact step.imp fun same => ne (Option.some.inj same).symm
  have later : Later src s' (s'.mark e.offset (.resolved r)) := .settle fun _ => told
  have settles : Settles s (s'.mark e.offset (.resolved r)) e.offset r :=
    ⟨fresh, slot_mark_self _ _ _⟩
  have inner : ∀ {offset r'}, offset ≠ e.offset →
      Settles s (s'.mark e.offset (.resolved r)) offset r' →
        Settles (s.mark e.offset (.pending none)) s' offset r' := fun ne =>
    (Settles.between_marks_iff _ _ ne).1
  have outer : ∀ {offset r'}, Settles (s.mark e.offset (.pending none)) s' offset r' →
      Settles s (s'.mark e.offset (.resolved r)) offset r' := fun hs =>
    (Settles.between_marks_iff _ _ hs.ne_of_mark).2 hs
  -- Of the entry and another only one can settle on an identifier.
  have apart : ∀ {offset e' k k' id}, src.tree.get? offset = some e' → e'.tag.kind? = some k' →
      e.tag.kind? = some k → offset ≠ e.offset → r = some id →
      ¬Settles s (s'.mark e.offset (.resolved r)) offset (some id) := by
    intro offset e' k k' id he' hk' hk ne hr hs
    have := grows.settled_new he' hk' (inner ne hs)
    exact this.2.2 (mine id k hr hk)
  refine ⟨grows.size_le, ?_, grows.filled, ?_, grows.noted, ?_, grows.placed, ?_, ?_, ?_, ?_, ?_⟩
  · intro id hid _
    refine grows.kept id hid fun hin => ?_
    have := behind id hin
    exact absurd hid (Nat.not_lt.2 this)
  · intro offset
    by_cases same : offset = e.offset
    · rw [same, fresh, slot_mark_self]
      exact .settle r
    · rw [slot_mark_of_ne _ _ same]
      exact (other offset same).imp False.elim
  · intro event hevent
    exact (grows.sound event hevent).imp_right fun sound => sound.later later
  · intro offset e' r' he' hs
    by_cases same : offset = e.offset
    · subst same
      cases there.symm.trans he'
      rw [hs.eq_of_mark]
      exact describes.later later fun id x hnew hx => ⟨hx, hnew⟩
    · refine (grows.described offset e' r' he' (inner same hs)).later later fun id x hnew hx => ?_
      exact ⟨hx, hnew.1, hnew.2.1, List.not_mem_nil⟩
  · intro offset e' r' he' htag hs
    by_cases same : offset = e.offset
    · subst same
      cases there.symm.trans he'
      rw [hs.eq_of_mark]
      exact ⟨_, s', runs, Nat.le_refl _, Nat.le_refl _, later, by simp, fun _ _ _ => rfl⟩
    · obtain ⟨s₁, s₂, runs', le, lasts⟩ := grows.traced offset e' r' he' htag (inner same hs)
      exact ⟨s₁, s₂, runs', le, (lasts.hold (by simp)).beside later rfl⟩
  · intro id x k hid _ hx hk
    by_cases hin : id ∈ own
    · obtain ⟨htag, hr⟩ := counted id hin x k hx hk
      exact ⟨e.offset, e, there, htag, hr ▸ settles⟩
    · obtain ⟨offset, e', he', htag, hs⟩ := grows.owned id x k hid hin hx hk
      exact ⟨offset, e', he', htag, outer hs⟩
  · intro id g hid _ hx hg
    by_cases hin : id ∈ own
    · exact ⟨e.offset, e, r, there, settles, signed id hin g hx hg⟩
    · obtain ⟨offset, e', r', he', hs, signs⟩ := grows.signed id g hid hin hx hg
      refine ⟨offset, e', r', he', outer hs, signs.imp fun id x hnew hx => ?_⟩
      exact ⟨hx, hnew.1, hnew.2.1, List.not_mem_nil⟩
  · intro offset offset' e₁ e₂ k k' id he₁ he₂ hk hk' hs hs'
    by_cases same : offset = e.offset <;> by_cases same' : offset' = e.offset
    · exact same.trans same'.symm
    · subst same
      cases there.symm.trans he₁
      exact absurd hs' (apart he₂ hk' hk same' hs.eq_of_mark.symm)
    · subst same'
      cases there.symm.trans he₂
      exact absurd hs (apart he₁ hk hk' same hs'.eq_of_mark.symm)
    · exact grows.unique offset offset' e₁ e₂ k k' id he₁ he₂ hk hk' (inner same hs)
        (inner same' hs')

end Build
end Dwarf2
