/-
What the builders of an entry have in common.

A builder runs while its entry is `AtWork`, with a resolver that `Answers` for as many
entries as are left.  Each of its steps lets the state grow, and what it stores for a type
is right: `AtWork.typeOf`.  `AtWork.inPlace` and `AtWork.withParts` are the two ways to make
a symbol that is exposed before it is complete.
-/
import Dwarf2.Proofs.Build.Growth

namespace Dwarf2
namespace Build

variable {src : Source} {w : Work} {s s' : State}

/-! ## Single steps -/

namespace Grows

/-- Steps that leave the slots and the journal alone. -/
theorem of_symbols (slots : s'.slots = s.slots) (journal : s'.journal = s.journal)
    (size_le : s.symbols.size ≤ s'.symbols.size)
    (kept : ∀ id, id.index < s.symbols.size → id ∉ w.own →
      s'.symbols.get? id = s.symbols.get? id)
    (filled : ∀ id, id ∉ w.places → s'.symbols.get? id = some .placeholder →
      s.symbols.get? id = some .placeholder)
    (plain : ∀ id x, s.symbols.size ≤ id.index → id ∉ w.own → s'.symbols.get? id = some x →
      x.Plain) : Grows src w s s' := by
  have same : ∀ offset, slot s' offset = slot s offset := fun offset => by
    rw [slot, slot, slots]
  have unsettled : ∀ offset r, ¬Settles s s' offset r := by
    rintro offset r ⟨start, stop⟩
    rw [same, start] at stop
    cases stop
  refine ⟨size_le, kept, filled, ?_, ?_, ?_, ?_, ?_, ?_, ?_, ?_, ?_⟩
  · intro offset
    rw [same]
    exact .same _
  · rw [journal]
    exact fun _ h => h
  · rw [journal]
    exact fun _ h => .inl h
  · intro id _
    rw [placements, placements, journal]
    exact .inl rfl
  · exact fun offset _ r _ hs => absurd hs (unsettled offset r)
  · exact fun offset _ r _ _ hs => absurd hs (unsettled offset r)
  · intro id x k hid hown hx hk
    rw [(plain id x hid hown hx).kindless] at hk
    cases hk
  · intro id g hid hown hx hg
    exact absurd ((plain id _ hid hown hx).bare g rfl) hg
  · exact fun offset _ _ _ _ _ _ _ _ _ _ hs => absurd hs (unsettled offset _)

/-- Steps that leave the symbols themselves alone, too. -/
theorem of_same (slots : s'.slots = s.slots) (journal : s'.journal = s.journal)
    (symbols : s'.symbols.symbols = s.symbols.symbols) : Grows src w s s' := by
  have get : ∀ id, s'.symbols.get? id = s.symbols.get? id := fun id => by
    rw [Symbol.Table.get?, Symbol.Table.get?, symbols]
  refine .of_symbols slots journal ?_ (fun id _ _ => get id)
    (fun id _ h => (get id).symm.trans h) ?_
  · exact Nat.le_of_eq (congrArg Array.size symbols.symm)
  · intro id x low _ hx
    have high := Symbol.Table.lt_size_of_get? ((get id).symm.trans hx)
    exact absurd high (Nat.not_lt.2 low)

theorem rename (names : NameSupply) : Grows src w s { s with names } :=
  .of_same rfl rfl rfl

theorem nameOf {e : Entry} {label name : String}
    (eq : (nameOf src e label).run s = (name, s')) : Grows src w s s' := by
  rw [of_run_nameOf eq]
  exact .rename _

theorem touch {symbols : Symbol.Table} {id : SymbolId} (hid : id ∈ w.own)
    (h : Symbol.Table.Touches id s.symbols symbols) : Grows src w s { s with symbols } := by
  refine of_symbols rfl rfl (Nat.le_of_eq h.size_eq.symm) ?_ ?_ ?_
  · intro other _ hother
    exact h.get?_eq other fun same => hother (same ▸ hid)
  · intro other _ hother
    by_cases same : other = id
    · rw [same] at hother ⊢
      exact h.filled hother
    · exact (h.get?_eq other same).symm.trans hother
  · intro other x low _ hx
    have high := Symbol.Table.lt_size_of_get? hx
    rw [h.size_eq] at high
    omega

theorem push {x : Symbol} (hx : x ≠ .placeholder ∨ ⟨s.symbols.size⟩ ∈ w.places)
    (counted : ⟨s.symbols.size⟩ ∈ w.own ∨ x.Plain) :
    Grows src w s { s with symbols := (s.symbols.push x).2 } := by
  have size := Symbol.Table.size_push s.symbols x
  refine of_symbols rfl rfl (by simp) ?_ ?_ ?_
  · intro id hid _
    refine Symbol.Table.get?_push_of_ne x fun same => ?_
    rw [same] at hid
    exact Nat.lt_irrefl _ hid
  · intro id hout h
    by_cases here : id = ⟨s.symbols.size⟩
    · rw [here, Symbol.Table.get?_push_self] at h
      exact absurd (Option.some.inj h) (hx.resolve_right (here ▸ hout))
    · rw [Symbol.Table.get?_push_of_ne x here] at h
      exact h
  · intro id y low hout hy
    have high := Symbol.Table.lt_size_of_get? hy
    rw [size] at high
    obtain ⟨index⟩ := id
    cases (show index = s.symbols.size by dsimp only at low high; omega)
    rw [Symbol.Table.get?_push_self] at hy
    cases hy
    exact counted.resolve_left hout

theorem note (event : Event) (sound : event.Sound src s)
    (quiet : ∀ id, id ∉ w.places → event.concerns id = false) :
    Grows src w s (s.note event) := by
  have nothing : ∀ id x, s.symbols.size ≤ id.index → s.symbols.get? id ≠ some x :=
    fun id x low hx => absurd (Symbol.Table.lt_size_of_get? hx) (Nat.not_lt.2 low)
  have unsettled : ∀ offset r, ¬Settles s (s.note event) offset r :=
    fun offset r ⟨start, stop⟩ => Slot.noConfusion (start.symm.trans stop)
  refine ⟨Nat.le_refl _, fun _ _ _ => rfl, fun _ _ h => h, fun _ => .same _,
    fun _ h => List.mem_cons_of_mem _ h, ?_, ?_, ?_, ?_, ?_, ?_, ?_⟩
  · intro other h
    rcases List.mem_cons.1 h with rfl | h
    · exact .inr (sound.later ⟨fun _ h => h, fun _ _ _ h => h, fun _ => List.mem_cons_of_mem _⟩)
    · exact .inl h
  · intro id hout
    exact .inl (placements_note_of_not_concerns (quiet id hout))
  · exact fun offset _ r _ hs => absurd hs (unsettled offset r)
  · exact fun offset _ r _ _ hs => absurd hs (unsettled offset r)
  · exact fun id x _ low _ hx => absurd hx (nothing id x low)
  · exact fun id g low _ hx => absurd hx (nothing id _ low)
  · exact fun offset _ _ _ _ _ _ _ _ _ _ hs => absurd hs (unsettled offset _)

theorem expose {e : Entry} (entry : w.entry = some e.offset)
    (pending : slot s e.offset = .pending none) (id : SymbolId) :
    Grows src w s (s.mark e.offset (.pending (some id))) := by
  have unsettled : ∀ offset r, ¬Settles s (s.mark e.offset (.pending (some id))) offset r := by
    rintro offset r ⟨start, stop⟩
    by_cases same : offset = e.offset
    · rw [same, pending] at start
      cases start
    · rw [slot_mark_of_ne _ _ same, start] at stop
      cases stop
  have becomes : ∀ offset, Slot.Becomes (w.entry = some offset) (slot s offset)
      (slot (s.mark e.offset (.pending (some id))) offset) := by
    intro offset
    by_cases same : offset = e.offset
    · rw [same, slot_mark_self, pending]
      exact .expose entry id
    · rw [slot_mark_of_ne _ _ same]
      exact .same _
  have nothing : ∀ other x, s.symbols.size ≤ other.index → s.symbols.get? other ≠ some x :=
    fun other x low hx => absurd (Symbol.Table.lt_size_of_get? hx) (Nat.not_lt.2 low)
  refine ⟨Nat.le_refl _, fun _ _ _ => rfl, fun _ _ h => h, becomes, fun _ h => h,
    fun _ h => .inl h, fun _ _ => .inl rfl, ?_, ?_, ?_, ?_, ?_⟩
  · exact fun offset _ r _ hs => absurd hs (unsettled offset r)
  · exact fun offset _ r _ _ hs => absurd hs (unsettled offset r)
  · exact fun other x _ low _ hx => absurd hx (nothing other x low)
  · exact fun other g low _ hx => absurd hx (nothing other _ low)
  · exact fun offset _ _ _ _ _ _ _ _ _ _ hs => absurd hs (unsettled offset _)

end Grows

/-! ## How many entries are left -/

theorem unresolved_le_size (src : Source) (s : State) : unresolved src s ≤ src.tree.size := by
  have := List.countP_le_length
    (p := fun offset => decide (slot s offset = .unresolved)) (l := src.tree.index.keys)
  rw [Std.HashMap.length_keys] at this
  exact this

theorem Grows.unresolved_le (h : Grows src w s s') :
    unresolved src s' ≤ unresolved src s := by
  refine List.countP_mono_left fun offset _ open' => ?_
  rw [decide_eq_true_iff] at open' ⊢
  by_contra asked
  exact (h.slots offset).ne_unresolved asked open'

theorem unresolved_mark_lt {e : Entry} (sl : Slot) (there : src.tree.get? e.offset = some e)
    (fresh : slot s e.offset = .unresolved) (asked : sl ≠ .unresolved) :
    unresolved src (s.mark e.offset sl) < unresolved src s := by
  have mem : e.offset ∈ src.tree.index.keys := by
    rw [Std.HashMap.mem_keys, Std.HashMap.mem_iff_isSome_getElem?]
    exact Option.isSome_of_eq_some there
  have perm := List.perm_cons_erase mem
  have before : unresolved src s = _ := (perm.countP_eq _).trans
    (List.countP_cons_of_pos (decide_eq_true fresh))
  have after : unresolved src (s.mark e.offset sl) = _ := (perm.countP_eq _).trans
    (List.countP_cons_of_neg (by rw [slot_mark_self]; simpa using asked))
  rw [before, after]
  refine Nat.lt_succ_of_le (List.countP_mono_left fun offset _ open' => ?_)
  rw [decide_eq_true_iff] at open' ⊢
  by_cases same : offset = e.offset
  · rw [same]
    exact fresh
  · rw [slot_mark_of_ne _ _ same] at open'
    exact open'

/-! ## Places -/

section Places

variable {e : Entry} {id : SymbolId}

theorem get?_withPlace (hid : id = ⟨s.symbols.size⟩) :
    (s.withPlace e id).symbols.get? id = some .placeholder := by
  rw [hid]
  exact Symbol.Table.get?_push_self s.symbols .placeholder

theorem placements_withPlace :
    placements (s.withPlace e id) id = .reserved id :: placements s id :=
  placements_note_of_concerns (decide_eq_true rfl)

theorem placements_withFilled (x : Symbol) : placements (s.withFilled id x) id =
    .filled id (s.symbols.get? id = some .placeholder) :: placements s id :=
  placements_note_of_concerns (decide_eq_true rfl)

theorem Grows.withPlace (pending : slot s e.offset = .pending none)
    (hid : id = ⟨s.symbols.size⟩) :
    Grows src ⟨e.offset, [id], [id]⟩ s (s.withPlace e id) := by
  have own : id ∈ [id] := List.mem_singleton_self id
  have reserved : Grows src ⟨e.offset, [id], [id]⟩ s
      { s with symbols := s.symbols.reserve.2 } := .push (.inr (hid ▸ own)) (.inl (hid ▸ own))
  have noted := reserved.trans (.note (.reserved id) trivial fun other hout =>
    decide_eq_false fun same => hout (same ▸ own))
  exact noted.trans (.expose rfl (by exact pending) id)

theorem Grows.withFilled (s : State) (x : Symbol) (own : id ∈ w.own) (place : id ∈ w.places) :
    Grows src w s (s.withFilled id x) := by
  have filled : Grows src w s { s with symbols := s.symbols.fill id x } := .touch own (.fill x _ id)
  exact filled.trans (.note _ trivial fun other hout =>
    decide_eq_false fun same => hout (same ▸ place))

end Places

/-! ## The entry at work -/

/-- What the resolver says of an offset. -/
structure Answer (src : Source) (s s' : State) (offset : Nat) (id : Option SymbolId) : Prop where
  grows : Grows src {} s s'
  absent : src.tree.get? offset = none → id = none
  asked : ∀ e, src.tree.get? offset = some e → slot s' offset ≠ .unresolved
  present : ∀ e, src.tree.get? offset = some e → slot s offset ≠ .pending none →
    (slot s' offset).told? = some id
  lost : ∀ e, src.tree.get? offset = some e → slot s offset = .pending none → id = none

/-- The resolver answers whenever at most so many entries are left, provided that all entries
without an identifier may be without one when the offset is asked for. -/
def Answers (src : Source) (budget : Nat) (resolve : Resolver) : Prop :=
  ∀ offset s id s', unresolved src s ≤ budget →
    (∀ waiting e, src.tree.get? waiting = some e → slot s waiting = .pending none →
      Awaits src e offset) →
    (resolve offset).run s = (id, s') → Answer src s s' offset id

namespace AtWork

variable {budget : Nat} {resolve : Resolver} {e c : Entry}

theorem grow (h : AtWork src budget e s) (grows : Grows src w s s') :
    AtWork src budget e s' where
  there := h.there
  asked := (grows.slots e.offset).ne_unresolved h.asked
  left := Nat.le_trans grows.unresolved_le h.left
  waiting offset d hd hs ne := by
    have step := grows.slots offset
    rw [hs] at step
    exact h.waiting offset d hd step.of_pending_none ne

/-- Whatever the entry asks for, all entries without an identifier may wait for it, provided
that the entry itself may. -/
theorem ask (h : AtWork src budget e s) (answers : Answers src budget resolve)
    {offset : Nat} (asks : Asks src e.offset offset)
    (late : slot s e.offset = .pending none → Awaits src e offset) {id : Option SymbolId}
    (eq : (resolve offset).run s = (id, s')) : Answer src s s' offset id := by
  refine answers offset s id s' h.left (fun waiting d hd hs => ?_) eq
  by_cases same : waiting = e.offset
  · subst same
    cases h.there.symm.trans hd
    exact late hs
  · exact (h.waiting waiting d hd hs same).step asks

/-- What an entry stores for the type of a part of it. -/
theorem typeOf (h : AtWork src budget e s) (answers : Answers src budget resolve)
    (hc : c ∈ e.preorder)
    (late : slot s e.offset = .pending none → ∀ target, c.reference? src.view .type = some target →
      Awaits src e target)
    {stored : Option SymbolId} (eq : (typeOf src resolve c).run s = (stored, s')) :
    Grows src {} s s' ∧ Refers src s' e c stored := by
  unfold Build.typeOf at eq
  cases href : c.reference? src.view .type with
  | none =>
    rw [href] at eq
    cases eq
    refine ⟨.refl _, ?_⟩
    simp only [Refers, href]
  | some target =>
    rw [href] at eq
    obtain ⟨_, _, ⟨⟩, eq⟩ := run_bind_eq.1 eq
    obtain ⟨_, noted, ⟨⟩, eq⟩ := run_bind_eq.1 eq
    have step : Grows src {} s (s.note (.followed c.offset target (slot s target))) :=
      .note _ trivial fun _ _ => rfl
    have answer := (h.grow step).ask answers ⟨e, c, h.there, hc, .inr href⟩
      (fun pending => late pending target href) eq
    refine ⟨step.trans answer.grows, ?_⟩
    cases hd : src.tree.get? target with
    | none =>
      simp only [Refers, href, hd]
      exact answer.absent hd
    | some d =>
      simp only [Refers, href, hd]
      refine fun _ => ⟨?_, slot s target, answer.grows.noted _ List.mem_cons_self, fun told => ?_,
        fun lost => ?_⟩
      · exact answer.asked d hd
      · exact answer.present d hd told
      · refine ⟨answer.lost d hd lost, ?_⟩
        by_cases same : target = e.offset
        · subst same
          cases h.there.symm.trans hd
          exact late lost _ href
        · exact h.waiting target d hd lost same

theorem typeOf_exposed (h : AtWork src budget e s) (answers : Answers src budget resolve)
    (hc : c ∈ e.preorder) (exposed : slot s e.offset ≠ .pending none) {stored : Option SymbolId}
    (eq : (Build.typeOf src resolve c).run s = (stored, s')) :
    Grows src {} s s' ∧ Refers src s' e c stored :=
  h.typeOf answers hc (fun pending => absurd pending exposed) eq

/-! ## Symbols that are exposed -/

/-- The entry has exposed the place of a symbol that it owns. -/
structure Exposed (src : Source) (e : Entry) (own : List SymbolId) (s s' : State)
    (id : SymbolId) (x : Symbol) : Prop where
  grows : Grows src ⟨e.offset, own, []⟩ s s'
  owns : id ∈ own
  behind : ∀ i ∈ own, s.symbols.size ≤ i.index
  slot_eq : slot s' e.offset = .pending (some id)
  get?_eq : s'.symbols.get? id = some x

/-- What was built before the symbol does not concern it. -/
theorem Exposed.after {own : List SymbolId} {id : SymbolId} {x : Symbol} {s₁ : State}
    (grows : Grows src {} s s₁) (h : Exposed src e own s₁ s' id x) :
    Exposed src e own s s' id x where
  grows := (grows.within fun i hi => .inr (h.behind i hi)).trans h.grows
  owns := h.owns
  behind i hi := Nat.le_trans grows.size_le (h.behind i hi)
  slot_eq := h.slot_eq
  get?_eq := h.get?_eq

theorem Exposed.stands {own : List SymbolId} {id : SymbolId} {x : Symbol}
    (h : Exposed src e own s s' id x) : Stands (New [] s s') s' (some id) x :=
  ⟨id, ⟨h.behind id h.owns, Symbol.Table.lt_size_of_get? h.get?_eq, List.not_mem_nil⟩, rfl,
    h.get?_eq⟩

theorem Exposed.built {own : List SymbolId} {id : SymbolId} {x : Symbol}
    (h : Exposed src e own s s' id x) (kind : x.kind? = e.tag.kind?)
    (signed : ∀ g, x = .signature g → e.tag = .subroutineType)
    (others : ∀ i ∈ own, i ≠ id → ∀ y, s'.symbols.get? i = some y →
      y.kind? = none ∧ Signs (New [] s s') s' e (some id) i)
    (describes : Describes src (Refers src s' e) (New [] s s') s' e (some id)) :
    Built src e s s' (some id) where
  grows := by
    refine ⟨own, h.grows, h.behind, ?_, ?_, ?_⟩
    · intro i hi y k hy hk
      by_cases same : i = id
      · subst same
        cases h.get?_eq.symm.trans hy
        exact ⟨kind.symm.trans hk, rfl⟩
      · rw [(others i hi same y hy).1] at hk
        cases hk
    · intro i hi g hg _
      by_cases same : i = id
      · subst same
        exact .inl ⟨signed g (Option.some.inj (h.get?_eq.symm.trans hg)), rfl⟩
      · exact (others i hi same _ hg).2
    · rintro i k ⟨⟩ -
      exact h.owns
  told v hv := by
    rw [h.slot_eq] at hv
    exact (Option.some.inj hv).symm
  describes := describes

/-- The place is reserved before the symbol is built, and stays empty meanwhile. -/
theorem inPlace (h : AtWork src budget e s) (pending : slot s e.offset = .pending none)
    {build : Build Symbol} {id : SymbolId} (eq : (inPlace e build).run s = (id, s'))
    {P : State → Symbol → Prop}
    (spec : ∀ s₁ x s₂, AtWork src budget e s₁ → slot s₁ e.offset ≠ .pending none →
      build.run s₁ = (x, s₂) → Grows src {} s₁ s₂ ∧ x ≠ .placeholder ∧ P s₂ x)
    (later : ∀ x s₁ s₂, Later src s₁ s₂ → P s₁ x → P s₂ x) :
    ∃ x, Exposed src e [id] s s' id x ∧ P s' x := by
  obtain ⟨hid, x, s₂, built, hs'⟩ := of_run_inPlace eq
  have own : id ∈ [id] := List.mem_singleton_self id
  have opened : Grows src ⟨e.offset, [id], [id]⟩ s (s.withPlace e id) := .withPlace pending hid
  have slot₁ : slot (s.withPlace e id) e.offset = .pending (some id) := slot_mark_self _ _ _
  obtain ⟨grows, hx, done⟩ := spec (s.withPlace e id) x s₂ (h.grow opened)
    (by rw [slot₁]; nofun) built
  have empty := grows.get?_eq (get?_withPlace hid)
  have inside := Symbol.Table.lt_size_of_get? (get?_withPlace (e := e) hid)
  have closed : Grows src ⟨e.offset, [id], [id]⟩ s₂ s' := hs' ▸ .withFilled s₂ x own own
  have full : s'.symbols.get? id = some x := hs' ▸ Symbol.Table.get?_fill_self empty
  have placed : placements s' id = [.filled id true, .reserved id] ++ placements s id := by
    have between : placements s₂ id = placements (s.withPlace e id) id :=
      (grows.placed id List.not_mem_nil).resolve_right fun h => absurd inside (Nat.not_lt.2 h.1)
    rw [hs', placements_withFilled, decide_eq_true empty, between, placements_withPlace]
    rfl
  have all := (opened.trans (grows.within (by simpa using .inl inside))).trans closed
  have behind : ∀ other ∈ [id], s.symbols.size ≤ other.index := by
    intro other hin
    rw [List.mem_singleton.1 hin]
    exact Nat.le_of_eq (by rw [hid])
  refine ⟨x, ⟨all.close ?_ ?_, own, behind, ?_, full⟩, later x _ _ closed.later done⟩
  · intro other hin
    rw [List.mem_singleton.1 hin, full]
    exact fun h => hx (Option.some.inj h)
  · intro other hin
    have low := behind other hin
    rw [List.mem_singleton.1 hin] at low ⊢
    exact ⟨low, Symbol.Table.lt_size_of_get? full, placed⟩
  · have same : slot s' e.offset = slot s₂ e.offset := by rw [hs']; rfl
    rw [same, grows.slot_eq (by rw [slot₁]; nofun), slot₁]

/-- The symbol takes up its parts one after another.  `P` tells what it is like when it has
those of the children in the list. -/
theorem withParts (h : AtWork src budget e s) (pending : slot s e.offset = .pending none)
    {x₀ : Symbol} {part : SymbolId → Entry → Build Unit} {id : SymbolId}
    (eq : (withParts e x₀ fun id => e.children.forM (part id)).run s = (id, s'))
    {P : List Entry → State → Symbol → Prop} (hx₀ : x₀ ≠ .placeholder)
    (start : ∀ s₁, Later src s s₁ → P [] s₁ x₀)
    (step : ∀ done c id x s₁ s₂, c ∈ e.children → AtWork src budget e s₁ →
      slot s₁ e.offset ≠ .pending none → s₁.symbols.get? id = some x → P done s₁ x →
      (part id c).run s₁ = ((), s₂) → Grows src ⟨none, [id], []⟩ s₁ s₂ ∧
        ∃ y, s₂.symbols.get? id = some y ∧ P (done ++ [c]) s₂ y) :
    ∃ x, Exposed src e [id] s s' id x ∧ P e.children s' x := by
  obtain ⟨hid, parts⟩ := of_run_withParts eq
  generalize hs₁ : State.mark _ e.offset (.pending (some id)) = s₁ at parts
  have own : id ∈ [id] := List.mem_singleton_self id
  have opened : Grows src ⟨e.offset, [id], []⟩ s s₁ := by
    have pushed : Grows src ⟨e.offset, [id], []⟩ s
        { s with symbols := (s.symbols.push x₀).2 } := .push (.inl hx₀) (.inl (hid ▸ own))
    rw [← hs₁]
    exact pushed.trans (.expose rfl (by exact pending) id)
  have slot₁ : slot s₁ e.offset = .pending (some id) := by rw [← hs₁, slot_mark_self]
  have get₁ : s₁.symbols.get? id = some x₀ := by
    rw [← hs₁, hid]
    exact Symbol.Table.get?_push_self s.symbols x₀
  have inside := Symbol.Table.lt_size_of_get? get₁
  have loop := run_forM (P := fun done s₂ => Grows src ⟨none, [id], []⟩ s₁ s₂ ∧
      ∃ x, s₂.symbols.get? id = some x ∧ P done s₂ x) parts
    ⟨.refl _, x₀, get₁, start s₁ opened.later⟩ fun done c s₂ s₃ hc before run => by
      obtain ⟨grows, x, hx, hP⟩ := before
      have work := (h.grow opened).grow grows
      have exposed : slot s₂ e.offset ≠ .pending none := by
        rw [grows.slot_eq (by rw [slot₁]; nofun), slot₁]
        nofun
      obtain ⟨grows', after⟩ := step done c id x s₂ s₃ hc work exposed hx hP run
      exact ⟨grows.trans grows', after⟩
  obtain ⟨grows, x, hx, done⟩ := loop
  refine ⟨x, ⟨opened.trans (grows.widen (fun _ h => nomatch h) (fun _ h => h) (fun _ h => h)
    fun _ h => .inl h), own, ?_, ?_, hx⟩, done⟩
  · intro other hin
    rw [List.mem_singleton.1 hin]
    exact Nat.le_of_eq (by rw [hid])
  · rw [grows.slot_eq (by rw [slot₁]; nofun), slot₁]

end AtWork

end Build
end Dwarf2
