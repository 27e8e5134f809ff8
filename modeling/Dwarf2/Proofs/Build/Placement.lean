/-
Where the bits of bit fields lie.

A field is recorded where it is declared (`fields_after`), provided that the size of its storage
unit is known when it is recorded.  An entry that does not say it takes the length of the type, as
far as there is one at that moment.  That is the length which the type has in the end, unless a
symbol on the way to it is still waiting for the aggregate to be built (`Awaited`).
-/
import Dwarf2.Proofs.Build.Parts
import Dwarf2.Proofs.Build.BitField
import Dwarf2.Proofs.Build.Waiting.Unit

namespace Dwarf2
namespace Build

variable {src : Source} {first : Nat} {s s' : State} {resolve : Resolver} {e c : Entry}
  {id : SymbolId} {m : Symbol.Member} {r : Option SymbolId}

/-- How many bytes the storage unit of a bit field has. -/
def storage? (src : Source) (t : Symbol.Table) (c : Entry) (type : Option SymbolId) :
    Option UInt64 :=
  c.unsigned? src.view .byteSize <|> type.bind t.typeLength?

/-! ## Lengths that are awaited -/

/-- The walk to the length of the type comes to a symbol whose own entry asks for `e`, be it by way
of others. -/
def Awaited (src : Source) (s : State) (e : Entry) (type : SymbolId) : Prop :=
  ∃ counts last, s.symbols.Walk type counts last ∧ ∃ offset d, src.tree.get? offset = some d ∧
    slot s offset = .resolved (some last) ∧ Relation.ReflTransGen (Asks src) offset e.offset

theorem Ready.fresh_of_walk (h : Ready src first s) {type last : SymbolId} {counts : List Nat}
    (walk : s.symbols.Walk type counts last) (fresh : Fresh first s.symbols type) :
    Fresh first s.symbols last := by
  induction walk with
  | stay => exact fresh
  | hop hop _ ih => exact ih (h.hops _ _ _ fresh.1 hop)

/-- The length that an entry at work is told is the one that the type has in the end, or there is
none since the type is still waiting for the entry. -/
theorem Working.typeLength? {t : State} (work : Working src first e t) (since : Since src t s)
    (idle : ∀ offset v, slot s offset ≠ .pending v) {type : SymbolId}
    (fresh : Fresh first t.symbols type) :
    t.symbols.typeLength? type = s.symbols.typeLength? type ∨
      t.symbols.typeLength? type = none ∧ Awaited src s e type := by
  rcases Symbol.Table.typeLength?_develop since.develops type with
    same | ⟨none, counts, last, walk, absent | empty⟩
  · exact .inl same.symm
  · have inside := (work.ready.fresh_of_walk walk fresh).2
    exact absurd (Array.getElem?_eq_none_iff.1 absent) (Nat.not_le.2 inside)
  · obtain ⟨offset, d, hd, tag, waits⟩ :=
      work.ready.places last (work.ready.fresh_of_walk walk fresh).1 empty
    have told := since.told offset d (some last) hd tag (by rw [waits]; rfl)
    refine .inr ⟨none, counts, last, walk.develop since.develops, offset, d, hd, ?_,
      work.leads offset d _ hd waits⟩
    cases found : slot s offset with
    | unresolved => rw [found] at told; cases told
    | pending v => exact absurd found (idle offset v)
    | resolved v => rw [found] at told; exact congrArg Slot.resolved (Option.some.inj told)

/-! ## Members -/

/-- The member as it was added in the middle of the run, in a state that is known. -/
structure Added (src : Source) (first : Nat) (s : State) (e c : Entry) (m : Symbol.Member) :
    Prop where
  bitSize_eq : m.bitSize = (c.unsigned? src.view .bitSize).getD 0
  bitOffset_eq : ∃ t, Working src first e t ∧ Since src t s ∧
    (∀ id, m.type = some id → Fresh first t.symbols id) ∧
      m.bitOffset = position src c (storage? src t.symbols c m.type)

theorem Added.grow (h : Added src first s e c m) (since : Since src s s') :
    Added src first s' e c m := by
  obtain ⟨t, work, past, fresh, eq⟩ := h.bitOffset_eq
  exact ⟨h.bitSize_eq, t, work, past.trans since, fresh, eq⟩

namespace Working

theorem addsMember (h : Working src first e s) (serves : Serves src first resolve)
    (hc : c ∈ e.children) (eq : (buildMember src resolve id c).run s = ((), s'))
    {a : Symbol.Aggregate} (here : s.symbols.get? id = some (.aggregate a)) :
    ∃ m, s'.symbols.get? id = some (.aggregate { a with members := a.members.push m }) ∧
      Added src first s' e c m := by
  obtain ⟨name, s₁, hname, eq⟩ := run_bind_eq.1 eq
  obtain ⟨type, s₂, htype, eq⟩ := run_bind_eq.1 eq
  obtain ⟨_, _, ⟨⟩, eq⟩ := run_bind_eq.1 eq
  have named : Moves src first none [] s s₁ := h.ready.nameOf hname
  obtain ⟨asked, fresh⟩ := (h.grow named).typeOf serves
    (Entry.mem_preorder_of_mem_children hc) htype
  have work := (h.grow named).grow asked
  have added := Calm.addMember (List.mem_singleton_self id) _ _ _ _ work eq
  have there := (named.trans asked).grows.get?_eq here
  rw [of_run_change eq] at added ⊢
  exact ⟨_, Symbol.Table.get?_addMember there _, rfl, s₂, work, added.since, fresh, rfl⟩

/-- What a child adds to an aggregate that has the members of some children. -/
theorem addsContent (h : Working src first e s) (serves : Serves src first resolve)
    (hc : c ∈ e.children) (eq : (buildContent src resolve id c).run s = ((), s'))
    {a : Symbol.Aggregate} (here : s.symbols.get? id = some (.aggregate a)) {done : List Entry}
    (members : List.Forall₂ (Added src first s e) (done.filter (·.tag = .member))
      a.members.toList) :
    ∃ a, s'.symbols.get? id = some (.aggregate a) ∧
      List.Forall₂ (Added src first s' e) ((done ++ [c]).filter (·.tag = .member))
        a.members.toList := by
  have since : Since src s s' := (Calm.buildContent serves (List.mem_singleton_self id)
    (Entry.mem_preorder_of_mem_children hc) _ _ _ h eq).since
  have kept := members.imp fun _ _ added => added.grow since
  unfold buildContent at eq
  split at eq
  · rename_i tag
    obtain ⟨m, there, added⟩ := h.addsMember serves hc eq here
    refine ⟨_, there, ?_⟩
    rw [AtWork.filter_snoc_of_pos (decide_eq_true tag)]
    exact AtWork.forall₂_push kept added
  · rename_i tag
    rw [AtWork.filter_snoc_of_neg (decide_eq_false (by rw [tag]; nofun))]
    obtain ⟨_, s₁, resolved, eq⟩ := run_bind_eq.1 eq
    cases eq
    have asks : Asks src e.offset c.offset :=
      ⟨e, c, h.there, Entry.mem_preorder_of_mem_children hc, .inl rfl⟩
    exact ⟨a, (h.ask serves asks resolved).1.grows.get?_eq here, kept⟩
  · rename_i tag _
    rw [AtWork.filter_snoc_of_neg (decide_eq_false tag)]
    cases eq
    exact ⟨a, here, kept⟩

theorem addsMembers (h : Working src first e s) (serves : Serves src first resolve)
    (pending : slot s e.offset = .pending none) (tag : e.tag ≠ .compileUnit)
    {kind : Symbol.AggregateKind} (eq : (Build.buildAggregate src resolve kind e).run s = (id, s')) :
    ∃ a, s'.symbols.get? id = some (.aggregate a) ∧
      List.Forall₂ (Added src first s' e) (e.childrenOf .member) a.members.toList := by
  obtain ⟨name, s₁, hname, eq⟩ := run_bind_eq.1 eq
  have named : Moves src first none [] s s₁ := h.ready.nameOf hname
  obtain ⟨rfl, run⟩ := of_run_withParts eq
  have work := h.grow named
  have told (a : Symbol.Aggregate) :=
    work.appear (named.pending pending) tag rfl (x := .aggregate a) rfl s₁.journal
  refine (run_forM (P := fun done s₂ => Moves src first none [⟨s₁.symbols.size⟩] _ s₂ ∧
      ∃ a, s₂.symbols.get? ⟨s₁.symbols.size⟩ = some (.aggregate a) ∧
        List.Forall₂ (Added src first s₂ e) (done.filter (·.tag = .member)) a.members.toList)
    run ⟨.refl (told _).ready, _, Symbol.Table.get?_push_self s₁.symbols _, .nil⟩
    fun done c s₂ s₃ hc sofar run => ?_).2
  obtain ⟨moves, a, here, members⟩ := sofar
  have work := (work.grow (told _)).grow moves
  refine ⟨moves.trans (Calm.buildContent serves (List.mem_singleton_self _)
    (Entry.mem_preorder_of_mem_children hc) _ _ _ work run), ?_⟩
  exact work.addsContent serves hc run here members

end Working

/-- The bits of the member start where those of the field lie in its storage unit.  A unit of which
nothing is known has no bytes. -/
structure Positioned (src : Source) (s : State) (e c : Entry) (m : Symbol.Member) : Prop where
  bitSize_eq : m.bitSize = (c.unsigned? src.view .bitSize).getD 0
  bitOffset_eq : m.bitOffset = position src c (storage? src s.symbols c m.type) ∨
    m.bitOffset = position src c none ∧ c.unsigned? src.view .byteSize = none ∧
      ∃ type, m.type = some type ∧ Awaited src s e type

theorem Added.positioned (h : Added src first s e c m)
    (idle : ∀ offset v, slot s offset ≠ .pending v) : Positioned src s e c m := by
  obtain ⟨t, work, past, fresh, eq⟩ := h.bitOffset_eq
  refine ⟨h.bitSize_eq, ?_⟩
  unfold storage? at *
  cases said : c.unsigned? src.view .byteSize with
  | some bytes =>
    rw [said] at eq
    exact .inl eq
  | none =>
    rw [said] at eq
    cases htype : m.type with
    | none =>
      rw [htype] at eq
      exact .inl eq
    | some type =>
      rw [htype] at eq
      rcases work.typeLength? past idle (fresh type htype) with same | ⟨none, awaited⟩
      · rw [Option.bind_some, same] at eq
        exact .inl eq
      · rw [Option.bind_some, none] at eq
        exact .inr ⟨eq, rfl, type, rfl, awaited⟩

section After

variable (src : Source) (symbols : Symbol.Table) (names : NameSupply) (calls : List Call)

/-- Every member of every aggregate lies where its entry says. -/
theorem positioned_after {offset : Nat} {kind : Symbol.AggregateKind}
    (he : src.tree.get? offset = some e) (tag : e.tag.kind? = some (.aggregate kind))
    (resolved : slot (after src symbols names calls) offset = .resolved r) :
    ∃ a, Stands (symbols.size ≤ ·.index) (after src symbols names calls) r (.aggregate a) ∧
      a.kind = kind ∧ List.Forall₂ (Positioned src (after src symbols names calls) e)
        (e.childrenOf .member) a.members.toList := by
  have rests := rests_after src symbols names calls
  have root : e.tag ≠ .compileUnit := fun root => by rw [root] at tag; cases tag
  obtain ⟨s₁, s₂, worked⟩ := rests.recorded offset e r he root resolved
  obtain ⟨steps, run⟩ := worked.runs
  rw [build_aggregate tag] at run
  obtain ⟨id, built, rfl⟩ := run_map_eq.1 run
  obtain ⟨a, there, members⟩ := worked.work.addsMembers (serves_resolveWithin src _ steps)
    worked.pending root built
  obtain ⟨b, ⟨_, low, ⟨⟩, here⟩, hkind, all⟩ :=
    (assembled_after src symbols names calls).members offset e _ kind he tag resolved
  obtain ⟨y, there', develops⟩ := worked.past.develops.symbols id _ there
  cases here.symm.trans there'
  -- As many members as there are children: none has been added since.
  have same : b.members.toList = a.members.toList := by
    have more : a.members.toList <+: b.members.toList := by
      cases develops with
      | same => exact List.prefix_refl _
      | aggregate more => exact more
    exact (more.eq_of_length (members.length_eq.symm.trans all.length_eq)).symm
  refine ⟨b, ⟨id, low, rfl, here⟩, hkind, ?_⟩
  rw [same]
  exact members.imp fun _ _ added => (added.grow worked.past).positioned rests.idle

end After

/-- The field is declared by an entry of a member, and lies in a storage unit of which the size is
known when the member is added. -/
structure FieldOf (src : Source) (s : State) (e : Entry) (a : Symbol.Aggregate) (c : Entry)
    (m : Symbol.Member) (f : BitField) : Prop where
  paired : (c, m) ∈ (e.childrenOf .member).zip a.members.toList
  declares : f.Declares src c (storage? src s.symbols c m.type)
  fits : f.Fits
  known : c.unsigned? src.view .byteSize = none → ∀ type, m.type = some type →
    ¬Awaited src s e type

theorem FieldOf.places {a : Symbol.Aggregate} {f : BitField} (h : FieldOf src s e a c m f)
    (members : List.Forall₂ (Positioned src s e) (e.childrenOf .member) a.members.toList) :
    f.Places m := by
  have positioned : Positioned src s e c m := List.forall₂_zip members h.paired
  rcases positioned.bitOffset_eq with eq | ⟨-, unsaid, type, htype, awaited⟩
  · exact h.declares.places h.fits eq positioned.bitSize_eq
  · exact absurd awaited (h.known unsaid type htype)

/-- A bit field of an aggregate is recorded at the bits that it declares, counted from the other
end of its storage unit.  Two fields of one unit that do not overlap as they are declared do not
overlap as they are recorded. -/
theorem fields_after (src : Source) (symbols : Symbol.Table) (names : NameSupply)
    (calls : List Call) (offset : Nat) (e : Entry) (kind : Symbol.AggregateKind)
    (r : Option SymbolId) :
    let s := after src symbols names calls
    src.tree.get? offset = some e → e.tag.kind? = some (.aggregate kind) →
      slot s offset = .resolved r →
        ∃ a, Stands (symbols.size ≤ ·.index) s r (.aggregate a) ∧ a.kind = kind ∧
          (e.childrenOf .member).length = a.members.size ∧
          (∀ c m f, FieldOf src s e a c m f → f.Places m) ∧
          ∀ c m f c' m' f', FieldOf src s e a c m f → FieldOf src s e a c' m' f' →
            f.location = f'.location → f.bytes = f'.bytes → Disjoint f.bits f'.bits →
              Disjoint m.bits m'.bits := by
  intro s he tag resolved
  obtain ⟨a, stands, hkind, members⟩ := positioned_after src symbols names calls he tag resolved
  refine ⟨a, stands, hkind, members.length_eq, fun c m f field => field.places members, ?_⟩
  intro c m f c' m' f' field field' location bytes apart
  exact (field.places members).disjoint field.fits field'.fits (field'.places members) location
    bytes apart

/-! ## Two fields in one integer

The fields of a structure share an integer of four bytes, the second behind the first. -/

namespace Flags

/-- A field of the integer, at four bytes from the start of the structure. -/
def field (offset : Nat) : Entry :=
  ⟨offset, ⟨4, .member, false, [⟨.type, .ref1⟩, ⟨.memberLocation, .data1⟩, ⟨.bitOffset, .data1⟩,
    ⟨.bitSize, .data1⟩]⟩, [offset + 1, offset + 2, offset + 3, offset + 4], []⟩

def integer : Entry :=
  ⟨1, ⟨2, .baseType, false, [⟨.byteSize, .data1⟩]⟩, [2], []⟩

def flags : Entry :=
  ⟨3, ⟨3, .structureType, true, []⟩, [], [field 4, field 9]⟩

def source : Source where
  view := ⟨.little, #[1, 2, 4, 3, 4, 1, 4, 0, 3, 4, 1, 4, 3, 5, 0, 0], #[], 0, 4⟩
  tree := .ofRoot ⟨0, ⟨1, .compileUnit, true, []⟩, [], [integer, flags]⟩ (by decide)
  image := ⟨0, []⟩

theorem size_tree : source.tree.size = 5 := by
  simp [source, integer, flags, field, Entry.Tree.size, Entry.Tree.ofRoot, Entry.fold,
    Entry.foldAll, Std.HashMap.size_insert]

theorem preorder_root : source.tree.root.preorder =
    [source.tree.root, integer, flags, field 4, field 9] :=
  rfl

theorem get?_integer : source.tree.get? 1 = some integer :=
  Entry.Tree.get?_eq_some.2 ⟨preorder_root ▸ by simp, rfl⟩

theorem get?_flags : source.tree.get? 3 = some flags :=
  Entry.Tree.get?_eq_some.2 ⟨preorder_root ▸ by simp, rfl⟩

def front : Symbol.Member :=
  ⟨"udt_member_1", some ⟨1⟩, 61, 3⟩

def back : Symbol.Member :=
  ⟨"udt_member_3", some ⟨1⟩, 56, 5⟩

def aggregate : Symbol.Aggregate :=
  ⟨"udt_0", .structType, 0, #[front, back]⟩

theorem fields : (flags.childrenOf .member).zip aggregate.members.toList =
    [(field 4, front), (field 9, back)] :=
  rfl

/-- What is there when the structure has been asked for. -/
theorem after_flags :
    (after source {} {} [.resolve 3]).symbols.symbols =
        #[.aggregate aggregate, .baseType ⟨"basetype_2", .void, 4⟩] ∧
      source.tree.root.preorder.map (slot (after source {} {} [.resolve 3]) ·.offset) =
        [.unresolved, .resolved (some ⟨1⟩), .resolved (some ⟨0⟩), .unresolved, .unresolved] := by
  rw [after_resolve size_tree]
  constructor
  · cbv
  · cbv

theorem get?_symbol :
    (after source {} {} [.resolve 3]).symbols.get? ⟨0⟩ = some (.aggregate aggregate) ∧
      (after source {} {} [.resolve 3]).symbols.get? ⟨1⟩ =
        some (.baseType ⟨"basetype_2", .void, 4⟩) := by
  simp only [Symbol.Table.get?, after_flags.1]
  exact ⟨rfl, rfl⟩

theorem length_integer :
    (after source {} {} [.resolve 3]).symbols.typeLength? ⟨1⟩ = some 4 :=
  (Symbol.Table.lengthWithin_of_ownSize _ _ 1 get?_symbol.2 rfl).trans (by decide)

theorem slot_flags : slot (after source {} {} [.resolve 3]) 3 = .resolved (some ⟨0⟩) := by
  have slots := after_flags.2
  simp only [preorder_root, List.map_cons, List.cons.injEq] at slots
  exact slots.2.2.1

theorem offset_of_slot {offset : Nat} {d : Entry} (hd : source.tree.get? offset = some d)
    (resolved : slot (after source {} {} [.resolve 3]) offset = .resolved (some ⟨1⟩)) :
    offset = 1 := by
  have slots := after_flags.2
  obtain ⟨mem, rfl⟩ := Entry.Tree.get?_eq_some.1 hd
  rw [preorder_root] at mem
  simp only [preorder_root, List.map_cons, List.cons.injEq] at slots
  simp only [List.mem_cons, List.not_mem_nil, or_false] at mem
  obtain ⟨root, -, flags, front, back, -⟩ := slots
  rcases mem with rfl | rfl | rfl | rfl | rfl
  · cases root.symm.trans resolved
  · rfl
  · cases flags.symm.trans resolved
  · cases front.symm.trans resolved
  · cases back.symm.trans resolved

/-- The integer asks for nothing but itself. -/
theorem eq_of_asks {offset : Nat} (chain : Relation.ReflTransGen (Asks source) 1 offset) :
    offset = 1 := by
  induction chain with
  | refl => rfl
  | tail _ asks ih =>
    subst ih
    obtain ⟨d, c, hd, hc, asked⟩ := asks
    cases get?_integer.symm.trans hd
    cases List.mem_singleton.1 (show c ∈ [integer] from hc)
    have untyped : integer.reference? source.view .type = none := by decide
    rcases asked with here | refers
    · exact here.symm
    · cases untyped.symm.trans refers

theorem not_awaited : ¬Awaited source (after source {} {} [.resolve 3]) flags ⟨1⟩ := by
  rintro ⟨counts, last, walk, offset, d, hd, resolved, chain⟩
  cases walk with
  | stay =>
    cases offset_of_slot hd resolved
    exact absurd (eq_of_asks chain) (by decide)
  | hop hop =>
    obtain ⟨x, here, goes⟩ := hop.exists_next
    cases here.symm.trans get?_symbol.2
    cases goes

end Flags

theorem fields_flags :
    let s := after Flags.source {} {} [.resolve 3]
    Flags.source.tree.get? 3 = some Flags.flags ∧
      Flags.flags.tag.kind? = some (.aggregate .structType) ∧ slot s 3 = .resolved (some ⟨0⟩) ∧
      FieldOf Flags.source s Flags.flags Flags.aggregate (Flags.field 4) Flags.front ⟨0, 3, 4, 4⟩ ∧
      FieldOf Flags.source s Flags.flags Flags.aggregate (Flags.field 9) Flags.back ⟨3, 5, 4, 4⟩ ∧
      BitField.Places ⟨0, 3, 4, 4⟩ Flags.front ∧ BitField.Places ⟨3, 5, 4, 4⟩ Flags.back ∧
      Disjoint Flags.front.bits Flags.back.bits := by
  intro s
  have storage (c : Entry) (unsaid : c.unsigned? Flags.source.view .byteSize = none) :
      storage? Flags.source s.symbols c (some ⟨1⟩) = some 4 := by
    rw [storage?, unsaid]
    exact Flags.length_integer
  have known (type : SymbolId) (htype : some ⟨1⟩ = some type) :
      ¬Awaited Flags.source s Flags.flags type := by
    cases htype
    exact Flags.not_awaited
  have front : FieldOf Flags.source s Flags.flags Flags.aggregate (Flags.field 4) Flags.front
      ⟨0, 3, 4, 4⟩ :=
    { paired := by
        rw [Flags.fields]
        exact List.mem_cons_self
      declares := ⟨by decide, by decide, by rw [Flags.front, storage _ (by decide)]; rfl, by decide⟩
      fits := ⟨by decide, by decide⟩
      known := fun _ => known }
  have back : FieldOf Flags.source s Flags.flags Flags.aggregate (Flags.field 9) Flags.back
      ⟨3, 5, 4, 4⟩ :=
    { paired := by
        rw [Flags.fields]
        exact List.mem_cons_of_mem _ (List.mem_singleton_self _)
      declares := ⟨by decide, by decide, by rw [Flags.back, storage _ (by decide)]; rfl, by decide⟩
      fits := ⟨by decide, by decide⟩
      known := fun _ => known }
  obtain ⟨a, ⟨_, -, ⟨⟩, here⟩, -, -, places, apart⟩ := fields_after Flags.source {} {} [.resolve 3]
    3 Flags.flags .structType (some ⟨0⟩) Flags.get?_flags rfl Flags.slot_flags
  cases here.symm.trans Flags.get?_symbol.1
  refine ⟨Flags.get?_flags, rfl, Flags.slot_flags, front, back, places _ _ _ front,
    places _ _ _ back, apart _ _ _ _ _ _ front back rfl rfl ?_⟩
  rw [BitField.bits, BitField.bits, Set.Ico_disjoint_Ico]
  decide

/-! ## A field of a type that is still being built

A structure has a field whose type is a pointer to that structure. -/

namespace Knot

def field : Entry :=
  ⟨4, ⟨4, .member, false, [⟨.type, .ref1⟩, ⟨.bitOffset, .data1⟩, ⟨.bitSize, .data1⟩]⟩, [5, 6, 7], []⟩

def knot : Entry :=
  ⟨3, ⟨3, .structureType, true, []⟩, [], [field]⟩

def source : Source where
  view := ⟨.little, #[1, 2, 3, 3, 4, 1, 0, 3, 0, 0], #[], 0, 4⟩
  tree := .ofRoot ⟨0, ⟨1, .compileUnit, true, []⟩, [], [typed 1 2 .pointerType, knot]⟩ (by decide)
  image := ⟨0, []⟩

theorem size_tree : source.tree.size = 4 := by
  simp [source, typed, knot, field, Entry.Tree.size, Entry.Tree.ofRoot, Entry.fold, Entry.foldAll,
    Std.HashMap.size_insert]

def member : Symbol.Member :=
  ⟨"udt_member_1", some ⟨0⟩, 18446744073709551613, 3⟩

theorem get?_knot : source.tree.get? 3 = some knot := by
  have preorder : source.tree.root.preorder =
    [source.tree.root, typed 1 2 .pointerType, knot, field] := rfl
  exact Entry.Tree.get?_eq_some.2 ⟨preorder ▸ by simp, rfl⟩

/-- What is there when the pointer has been asked for, and when the structure has. -/
theorem after_knot :
    (after source {} {} [.resolve 1]).symbols.symbols =
        #[.pointer ⟨some ⟨1⟩, 4⟩, .aggregate ⟨"udt_0", .structType, 0, #[member]⟩] ∧
      slot (after source {} {} [.resolve 1]) 3 = .resolved (some ⟨1⟩) ∧
      (after source {} {} [.resolve 3]).symbols.symbols =
        #[.aggregate ⟨"udt_0", .structType, 0, #[⟨"udt_member_1", some ⟨1⟩, 29, 3⟩]⟩,
          .pointer ⟨some ⟨0⟩, 4⟩] := by
  rw [after_resolve size_tree, after_resolve size_tree]
  refine ⟨?_, ?_, ?_⟩
  · cbv
  · cbv
  · cbv

theorem get?_pointer :
    (after source {} {} [.resolve 1]).symbols.get? ⟨0⟩ = some (.pointer ⟨some ⟨1⟩, 4⟩) := by
  rw [Symbol.Table.get?, after_knot.1]
  rfl

theorem length_pointer : (after source {} {} [.resolve 1]).symbols.typeLength? ⟨0⟩ = some 4 :=
  (Symbol.Table.lengthWithin_of_ownSize _ _ 1 get?_pointer rfl).trans (by decide)

end Knot

/-- When the pointer is asked for first, it has no length yet when the field is added, and the field
is recorded far outside of its storage unit.  It is recorded inside when the structure is asked for
first. -/
theorem field_outside :
    let s := after Knot.source {} {} [.resolve 1]
    Knot.source.tree.get? 3 = some Knot.knot ∧
      Knot.knot.tag.kind? = some (.aggregate .structType) ∧ slot s 3 = .resolved (some ⟨1⟩) ∧
      s.symbols.get? ⟨1⟩ = some (.aggregate ⟨"udt_0", .structType, 0, #[Knot.member]⟩) ∧
      (Knot.knot.childrenOf .member).zip [Knot.member] = [(Knot.field, Knot.member)] ∧
      BitField.Declares Knot.source Knot.field
        (storage? Knot.source s.symbols Knot.field Knot.member.type) ⟨0, 3, 4, 0⟩ ∧
      BitField.Fits ⟨0, 3, 4, 0⟩ ∧ ¬BitField.Places ⟨0, 3, 4, 0⟩ Knot.member ∧
      (after Knot.source {} {} [.resolve 3]).symbols.get? ⟨0⟩ =
        some (.aggregate ⟨"udt_0", .structType, 0, #[⟨"udt_member_1", some ⟨1⟩, 29, 3⟩]⟩) := by
  intro s
  have storage : storage? Knot.source s.symbols Knot.field Knot.member.type = some 4 := by
    rw [storage?, show Knot.field.unsigned? Knot.source.view .byteSize = none by decide]
    exact Knot.length_pointer
  obtain ⟨pointerFirst, resolved, structureFirst⟩ := Knot.after_knot
  refine ⟨Knot.get?_knot, rfl, resolved, ?_, rfl, ?_, ⟨by decide, by decide⟩, ?_, ?_⟩
  · rw [Symbol.Table.get?, pointerFirst]
    rfl
  · rw [storage]
    exact ⟨by decide, by decide, by decide, by decide⟩
  · exact fun places => absurd places.start (by decide)
  · rw [Symbol.Table.get?, structureFirst]
    rfl

end Build
end Dwarf2
