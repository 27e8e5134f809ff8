/-
What the builders of types build.

There is one theorem for each builder: when it is run for the entry at work, the entry is
`Built`.  Types with parts are followed through the loop over their children, by what they
are like when the first children are done.
-/
import Dwarf2.Build.Type
import Dwarf2.Proofs.Build.Step

namespace Dwarf2
namespace Build

variable {src : Source} {budget : Nat} {resolve : Resolver} {e : Entry} {s s' : State}
  {id : SymbolId}

/-! ## What is built -/

section Built

/- What is stored for the types of entries is told by a relation `R`. -/
variable {R R' : Entry → Option SymbolId → Prop}

/-- The bounds that an entry declares.  A count takes the place of an upper bound. -/
def boundsOf (src : Source) (c : Entry) : Int64 × Int64 :=
  let min := (c.signed? src.view .lowerBound).getD 0
  match c.signed? src.view .count with
  | some count => (min, min + count)
  | none => (min, (c.signed? src.view .upperBound).getD 0)

/-- The bounds of an array are those of its last subrange. -/
def lastBounds (src : Source) (subranges : List Entry) : Int64 × Int64 :=
  (subranges.getLast?.map (boundsOf src)).getD (0, 0)

/-- What an array is like when all subranges have been read. -/
structure ArrayOf (src : Source) (R : Entry → Option SymbolId → Prop) (e : Entry)
    (a : Symbol.ArrayType) : Prop where
  element : R e a.element
  index : DescribesIndex R (e.childrenOf .subrangeType) a.index
  bounds_eq : (a.min, a.max) = lastBounds src (e.childrenOf .subrangeType)

theorem ArrayOf.imp {a : Symbol.ArrayType}
    (h : ArrayOf src R e a) (refs : ∀ c stored, R c stored → R' c stored) : ArrayOf src R' e a :=
  ⟨refs _ _ h.element, h.index.imp refs, h.bounds_eq⟩

/-- The member that an entry is built into. -/
structure MemberOf (src : Source) (R : Entry → Option SymbolId → Prop) (c : Entry)
    (m : Symbol.Member) : Prop where
  named : Named src "udt_member" c m.name
  type : R c m.type
  bitSize_eq : m.bitSize = (c.unsigned? src.view .bitSize).getD 0

theorem MemberOf.imp {c : Entry} {m : Symbol.Member}
    (h : MemberOf src R c m) (refs : ∀ c stored, R c stored → R' c stored) :
    MemberOf src R' c m :=
  { h with type := refs _ _ h.type }

/-- The enumerator that an entry is built into. -/
structure EnumeratorOf (src : Source) (c : Entry) (v : Symbol.Enumerator) : Prop where
  named : Named src "enum_value" c v.name
  value_eq : v.value = (c.signed? src.view .constValue).getD 0

end Built

namespace AtWork

/-! ## Lists of parts -/

theorem filter_snoc_of_pos {p : Entry → Bool} {done : List Entry} {c : Entry} (h : p c = true) :
    (done ++ [c]).filter p = done.filter p ++ [c] := by
  rw [List.filter_append, List.filter_cons_of_pos h, List.filter_nil]

theorem filter_snoc_of_neg {p : Entry → Bool} {done : List Entry} {c : Entry} (h : p c = false) :
    (done ++ [c]).filter p = done.filter p := by
  rw [List.filter_append, List.filter_cons_of_neg (by rw [h]; exact Bool.false_ne_true),
    List.filter_nil, List.append_nil]

theorem forall₂_push {α : Type} {R : Entry → α → Prop} {done : List Entry} {parts : Array α}
    {c : Entry} {part : α} (h : List.Forall₂ R done parts.toList) (hc : R c part) :
    List.Forall₂ R (done ++ [c]) (parts.push part).toList := by
  rw [Array.toList_push]
  exact List.rel_append h (.cons hc .nil)

/-! ## Types without parts -/

theorem built_baseType (pending : slot s e.offset = .pending none) (tag : e.tag = .baseType)
    (eq : (buildBaseType src e).run s = (id, s')) : Built src e s s' (some id) := by
  obtain ⟨name, s₁, hname, eq⟩ := run_bind_eq.1 eq
  obtain ⟨hid, rfl⟩ := of_run_push eq
  generalize hb : (⟨name, _, _⟩ : Symbol.BaseType) = b at *
  rw [of_run_nameOf hname] at hid ⊢
  have own : id ∈ [id] := List.mem_singleton_self _
  have behind : s.symbols.size ≤ id.index := Nat.le_of_eq (by rw [hid])
  have get : (s.symbols.push (.baseType b)).2.get? id = some (.baseType b) := by
    rw [hid]
    exact Symbol.Table.get?_push_self s.symbols _
  have named : Grows src ⟨e.offset, [id], []⟩ s { s with names := s₁.names } := .rename _
  refine ⟨⟨[id], named.trans (.push (.inl (by nofun)) (.inl (hid ▸ own))), ?_, ?_, ?_, ?_⟩, ?_, ?_⟩
  · intro i hi
    rw [List.mem_singleton.1 hi]
    exact behind
  · intro i hi x k hx hk
    rw [List.mem_singleton.1 hi] at hx ⊢
    cases get.symm.trans hx
    exact ⟨by rw [tag]; exact hk, rfl⟩
  · intro i hi g hg
    rw [List.mem_singleton.1 hi] at hg
    cases get.symm.trans hg
  · rintro i k ⟨⟩ -
    exact own
  · intro v hv
    change (slot s e.offset).told? = some v at hv
    rw [pending] at hv
    cases hv
  · simp only [Describes, tag]
    exact ⟨b, id, ⟨behind, Symbol.Table.lt_size_of_get? get, List.not_mem_nil⟩, rfl, get⟩

theorem built_typedef (h : AtWork src budget e s) (pending : slot s e.offset = .pending none)
    (answers : Answers src budget resolve) (tag : e.tag = .typedef)
    (eq : (buildTypedef src resolve e).run s = (id, s')) : Built src e s s' (some id) := by
  obtain ⟨x, exposed, d, rfl, target⟩ := h.inPlace pending eq
    (P := fun s x => ∃ d, x = .typedef d ∧ Refers src s e e d.target)
    (fun s₁ x s₂ work exposed run => by
      obtain ⟨name, s₃, hname, run⟩ := run_bind_eq.1 run
      obtain ⟨target, s₄, htarget, run⟩ := run_bind_eq.1 run
      cases run
      have named : Grows src {} s₁ s₃ := .nameOf hname
      obtain ⟨grows, refers⟩ := (work.grow named).typeOf_exposed answers e.mem_preorder
        (named.ne_pending exposed) htarget
      exact ⟨named.trans grows, nofun, _, rfl, refers⟩)
    (by
      rintro x s₁ s₂ later ⟨d, hd, target⟩
      exact ⟨d, hd, target.later later⟩)
  refine exposed.built (by rw [tag]; rfl) (by nofun) (by simp) ?_
  simp only [Describes, tag]
  exact ⟨d, exposed.stands, target⟩

theorem built_pointer (h : AtWork src budget e s) (pending : slot s e.offset = .pending none)
    (answers : Answers src budget resolve) (tag : e.tag = .pointerType ∨ e.tag = .referenceType)
    (eq : (buildPointer src resolve e).run s = (id, s')) : Built src e s s' (some id) := by
  obtain ⟨x, exposed, p, rfl, target⟩ := h.inPlace pending eq
    (P := fun s x => ∃ p, x = .pointer p ∧ Refers src s e e p.target)
    (fun s₁ x s₂ work exposed run => by
      obtain ⟨target, s₃, htarget, run⟩ := run_bind_eq.1 run
      cases run
      obtain ⟨grows, refers⟩ := work.typeOf_exposed answers e.mem_preorder exposed htarget
      exact ⟨grows, nofun, _, rfl, refers⟩)
    (by
      rintro x s₁ s₂ later ⟨p, hp, target⟩
      exact ⟨p, hp, target.later later⟩)
  refine exposed.built ?_ (by nofun) (by simp) ?_
  · rcases tag with tag | tag <;> rw [tag] <;> rfl
  · rcases tag with tag | tag <;> simp only [Describes, tag] <;>
      exact ⟨p, exposed.stands, target⟩

/-- A qualified type has no symbol of its own, so it waits for the type that it qualifies. -/
theorem built_qualifier (h : AtWork src budget e s) (pending : slot s e.offset = .pending none)
    (answers : Answers src budget resolve) (tag : e.tag = .constType ∨ e.tag = .volatileType)
    {r : Option SymbolId} (eq : (Build.typeOf src resolve e).run s = (r, s')) :
    Built src e s s' r := by
  have late : ExposesLate e.tag := tag.imp_right .inl
  obtain ⟨grows, refers⟩ := h.typeOf answers e.mem_preorder
    (fun _ target htarget => .of_type late htarget) eq
  refine ⟨⟨[], grows.within (by simp), by simp, by simp, by simp, ?_⟩, ?_, ?_⟩
  · rintro i k - hk
    rcases tag with tag | tag <;> rw [tag] at hk <;> cases hk
  · intro v hv
    rw [grows.slot_eq h.asked, pending] at hv
    cases hv
  · rcases tag with tag | tag <;> simp only [Describes, tag] <;> exact refers

/-! ## Types with parts -/

/-- What the bounds of an array owe to the children that have been read. -/
theorem run_readBounds (h : AtWork src budget e s) (answers : Answers src budget resolve)
    (exposed : slot s e.offset ≠ .pending none) {range : Subrange}
    (eq : (e.children.foldlM (readBounds src resolve) {}).run s = (range, s')) :
    Grows src {} s s' ∧
      DescribesIndex (Refers src s' e) (e.childrenOf .subrangeType) range.index ∧
      (range.min, range.max) = lastBounds src (e.childrenOf .subrangeType) := by
  refine run_foldlM (P := fun done range s₁ => Grows src {} s s₁ ∧
    DescribesIndex (Refers src s₁ e) (done.filter (·.tag = .subrangeType)) range.index ∧
    (range.min, range.max) = lastBounds src (done.filter (·.tag = .subrangeType))) eq
    ⟨.refl s, by rfl, rfl⟩ fun done range c s₁ range' s₂ hc before run => ?_
  obtain ⟨grows, index, bounds⟩ := before
  unfold readBounds at run
  split at run
  · rename_i tag
    obtain ⟨type, s₃, htype, run⟩ := run_bind_eq.1 run
    cases run
    obtain ⟨grows', refers⟩ := (h.grow grows).typeOf_exposed answers
      (Entry.mem_preorder_of_mem_children hc) (grows.ne_pending exposed) htype
    rw [filter_snoc_of_pos (decide_eq_true tag), DescribesIndex, lastBounds,
      List.getLast?_append]
    refine ⟨grows.trans grows', refers, ?_⟩
    change _ = boundsOf src c
    unfold boundsOf
    cases c.signed? src.view .count <;> rfl
  · rename_i tag
    cases run
    rw [filter_snoc_of_neg (decide_eq_false tag)]
    exact ⟨grows, index, bounds⟩

/-- An array without children has no place. -/
theorem run_buildArray (h : AtWork src budget e s) (pending : slot s e.offset = .pending none)
    (answers : Answers src budget resolve) {r : Option SymbolId}
    (eq : (buildArray src resolve e).run s = (r, s')) :
    if e.abbreviation.hasChildren then
      ∃ id a, r = some id ∧ Exposed src e [id] s s' id (.array a) ∧
        ArrayOf src (Refers src s' e) e a
    else
      r = none ∧ s' = s := by
  unfold buildArray at eq
  by_cases children : e.abbreviation.hasChildren
  · rw [if_neg (by simp [children])] at eq
    rw [if_pos children]
    obtain ⟨id, run, rfl⟩ := run_map_eq.1 eq
    obtain ⟨x, exposed, a, rfl, array⟩ := h.inPlace pending run
      (P := fun s x => ∃ a, x = .array a ∧ ArrayOf src (Refers src s e) e a)
      (fun s₁ x s₂ work exposed run => by
        obtain ⟨element, s₃, helement, run⟩ := run_bind_eq.1 run
        obtain ⟨range, s₄, hrange, run⟩ := run_bind_eq.1 run
        cases run
        obtain ⟨grows, refers⟩ := work.typeOf_exposed answers e.mem_preorder exposed helement
        obtain ⟨grows', index, bounds⟩ := (work.grow grows).run_readBounds answers
          (grows.ne_pending exposed) hrange
        exact ⟨grows.trans grows', nofun, _, rfl, refers.later grows'.later, index, bounds⟩)
      (by
        rintro x s₁ s₂ later ⟨a, ha, array⟩
        exact ⟨a, ha, array.imp fun _ _ h => h.later later⟩)
    exact ⟨id, a, rfl, exposed, array⟩
  · rw [if_pos (by simp [children])] at eq
    rw [if_neg children]
    cases eq
    exact ⟨rfl, rfl⟩

theorem built_array (h : AtWork src budget e s) (pending : slot s e.offset = .pending none)
    (answers : Answers src budget resolve) (tag : e.tag = .arrayType) {r : Option SymbolId}
    (eq : (buildArray src resolve e).run s = (r, s')) : Built src e s s' r := by
  have run := h.run_buildArray pending answers eq
  by_cases children : e.abbreviation.hasChildren
  · rw [if_pos children] at run
    obtain ⟨id, a, rfl, exposed, array⟩ := run
    refine exposed.built (by rw [tag]; rfl) (by nofun) (by simp) ?_
    simp only [Describes, tag, children, if_true]
    exact ⟨a, exposed.stands, array.element, array.index⟩
  · rw [if_neg children] at run
    obtain ⟨rfl, rfl⟩ := run
    refine ⟨⟨[], .refl _, by simp, by simp, by simp, by simp⟩, ?_, ?_⟩
    · intro v hv
      rw [pending] at hv
      cases hv
    · rw [Describes, tag]
      exact (if_neg children).mpr rfl

/-- What an aggregate with the members of some children is like. -/
def HasMembers (src : Source) (kind : Symbol.AggregateKind) (e : Entry) (done : List Entry)
    (s : State) (x : Symbol) : Prop :=
  ∃ a, x = .aggregate a ∧ a.kind = kind ∧
    List.Forall₂ (MemberOf src (Refers src s e)) (done.filter (·.tag = .member)) a.members.toList

theorem HasMembers.later {kind : Symbol.AggregateKind} {done : List Entry} {x : Symbol}
    (h : HasMembers src kind e done s x) (later : Later src s s') :
    HasMembers src kind e done s' x := by
  obtain ⟨a, ha, hkind, members⟩ := h
  exact ⟨a, ha, hkind, members.imp fun _ _ h => h.imp fun _ _ refers => refers.later later⟩

theorem run_buildMember {kind : Symbol.AggregateKind} {done : List Entry} {c : Entry}
    {x : Symbol} (h : AtWork src budget e s) (answers : Answers src budget resolve)
    (hc : c ∈ e.children) (tag : c.tag = .member) (exposed : slot s e.offset ≠ .pending none)
    (hx : s.symbols.get? id = some x) (has : HasMembers src kind e done s x)
    (eq : (buildMember src resolve id c).run s = ((), s')) :
    Grows src ⟨none, [id], []⟩ s s' ∧
      ∃ y, s'.symbols.get? id = some y ∧ HasMembers src kind e (done ++ [c]) s' y := by
  obtain ⟨name, s₁, hname, eq⟩ := run_bind_eq.1 eq
  obtain ⟨type, s₂, htype, eq⟩ := run_bind_eq.1 eq
  obtain ⟨_, _, ⟨⟩, eq⟩ := run_bind_eq.1 eq
  obtain rfl := of_run_change eq
  have named : Grows src {} s s₁ := .nameOf hname
  obtain ⟨grows, refers⟩ := (h.grow named).typeOf_exposed answers
    (Entry.mem_preorder_of_mem_children hc) (named.ne_pending exposed) htype
  have asked := named.trans grows
  have inside := Symbol.Table.lt_size_of_get? hx
  refine ⟨(asked.within (by simpa using .inl inside)).trans
    (.touch (List.mem_singleton_self id) (.addMember _ _ id)), ?_⟩
  obtain ⟨a, rfl, hkind, members⟩ := has.later asked.later
  refine ⟨_, Symbol.Table.get?_addMember (asked.get?_eq hx) _, _, rfl, hkind, ?_⟩
  rw [filter_snoc_of_pos (decide_eq_true tag)]
  exact forall₂_push members ⟨named_of_run_nameOf hname, refers, rfl⟩

theorem run_buildContent {kind : Symbol.AggregateKind} {done : List Entry} {c : Entry}
    {x : Symbol} (h : AtWork src budget e s) (answers : Answers src budget resolve)
    (hc : c ∈ e.children) (exposed : slot s e.offset ≠ .pending none)
    (hx : s.symbols.get? id = some x) (has : HasMembers src kind e done s x)
    (eq : (buildContent src resolve id c).run s = ((), s')) :
    Grows src ⟨none, [id], []⟩ s s' ∧
      ∃ y, s'.symbols.get? id = some y ∧ HasMembers src kind e (done ++ [c]) s' y := by
  have unchanged : c.tag ≠ .member → HasMembers src kind e (done ++ [c]) s x := by
    intro tag
    rw [HasMembers, filter_snoc_of_neg (decide_eq_false tag)]
    exact has
  unfold buildContent at eq
  split at eq
  · rename_i tag
    exact h.run_buildMember answers hc tag exposed hx has eq
  · rename_i tag
    obtain ⟨r, s₁, resolved, eq⟩ := run_bind_eq.1 eq
    cases eq
    have answer := h.ask answers
      ⟨e, c, h.there, Entry.mem_preorder_of_mem_children hc, .inl rfl⟩
      (fun pending => absurd pending exposed) resolved
    have inside := Symbol.Table.lt_size_of_get? hx
    exact ⟨answer.grows.within (by simpa using .inl inside), x, answer.grows.get?_eq hx,
      (unchanged (by rw [tag]; nofun)).later answer.grows.later⟩
  · rename_i tag _
    cases eq
    exact ⟨.refl s, x, hx, unchanged tag⟩

/-- The aggregate is exposed before it has any members. -/
theorem run_buildAggregate {kind : Symbol.AggregateKind} (h : AtWork src budget e s)
    (pending : slot s e.offset = .pending none) (answers : Answers src budget resolve)
    (eq : (buildAggregate src resolve kind e).run s = (id, s')) :
    ∃ x, Exposed src e [id] s s' id x ∧ HasMembers src kind e e.children s' x := by
  obtain ⟨name, s₁, hname, eq⟩ := run_bind_eq.1 eq
  have named : Grows src {} s s₁ := .nameOf hname
  have pending₁ : slot s₁ e.offset = .pending none := by
    rw [named.slot_eq h.asked, pending]
  obtain ⟨x, exposed, has⟩ := (h.grow named).withParts pending₁ eq
    (P := HasMembers src kind e) nofun (fun _ _ => ⟨_, rfl, rfl, .nil⟩)
    (fun done c id x s₂ s₃ hc work exposed hx has run =>
      work.run_buildContent answers hc exposed hx has run)
  exact ⟨x, exposed.after named, has⟩

theorem built_aggregate {kind : Symbol.AggregateKind} (h : AtWork src budget e s)
    (pending : slot s e.offset = .pending none) (answers : Answers src budget resolve)
    (tag : e.tag = .classType ∧ kind = .classType ∨ e.tag = .structureType ∧ kind = .structType ∨
      e.tag = .unionType ∧ kind = .unionType)
    (eq : (buildAggregate src resolve kind e).run s = (id, s')) : Built src e s s' (some id) := by
  obtain ⟨x, exposed, a, rfl, hkind, members⟩ := h.run_buildAggregate pending answers eq
  have aggregate : DescribesAggregate (Refers src s' e) (New [] s s') s' kind e (some id) :=
    ⟨a, exposed.stands, hkind, members.imp fun _ _ member => member.type⟩
  refine exposed.built ?_ (by nofun) (by simp) ?_
  · rw [Symbol.kind?, hkind]
    rcases tag with ⟨tag, rfl⟩ | ⟨tag, rfl⟩ | ⟨tag, rfl⟩ <;> rw [tag] <;> rfl
  · rcases tag with ⟨tag, rfl⟩ | ⟨tag, rfl⟩ | ⟨tag, rfl⟩ <;> simp only [Describes, tag] <;>
      exact aggregate

/-- What an enumeration with the values of some children is like. -/
def HasValues (src : Source) (done : List Entry) (_ : State) (x : Symbol) : Prop :=
  ∃ n, x = .enumeration n ∧
    List.Forall₂ (EnumeratorOf src) (done.filter (·.tag = .enumerator)) n.enumerators.toList

theorem run_buildEnumerator {done : List Entry} {c : Entry} {x : Symbol}
    (hx : s.symbols.get? id = some x) (has : HasValues src done s x)
    (eq : (buildEnumerator src id c).run s = ((), s')) :
    Grows src ⟨none, [id], []⟩ s s' ∧
      ∃ y, s'.symbols.get? id = some y ∧ HasValues src (done ++ [c]) s' y := by
  obtain ⟨n, rfl, values⟩ := has
  unfold buildEnumerator at eq
  split at eq
  · rename_i tag
    obtain ⟨name, s₁, hname, eq⟩ := run_bind_eq.1 eq
    cases eq
    have named : Grows src {} s s₁ := .nameOf hname
    have inside := Symbol.Table.lt_size_of_get? hx
    refine ⟨(named.within (by simpa using .inl inside)).trans
      (.touch (List.mem_singleton_self id) (.addEnumerator _ _ id)), ?_⟩
    refine ⟨_, Symbol.Table.get?_addEnumerator (named.get?_eq hx) _, _, rfl, ?_⟩
    rw [filter_snoc_of_pos (decide_eq_true tag)]
    exact forall₂_push values ⟨named_of_run_nameOf hname, rfl⟩
  · rename_i tag
    cases eq
    refine ⟨.refl s, _, hx, n, rfl, ?_⟩
    rw [filter_snoc_of_neg (decide_eq_false tag)]
    exact values

theorem run_buildEnumeration (h : AtWork src budget e s)
    (pending : slot s e.offset = .pending none)
    (eq : (buildEnumeration src e).run s = (id, s')) :
    ∃ x, Exposed src e [id] s s' id x ∧ HasValues src e.children s' x := by
  obtain ⟨name, s₁, hname, eq⟩ := run_bind_eq.1 eq
  have named : Grows src {} s s₁ := .nameOf hname
  have pending₁ : slot s₁ e.offset = .pending none := by
    rw [named.slot_eq h.asked, pending]
  obtain ⟨x, exposed, has⟩ := (h.grow named).withParts pending₁ eq
    (P := HasValues src) nofun (fun _ _ => ⟨_, rfl, .nil⟩)
    (fun done c id x s₂ s₃ _ _ _ hx has run => run_buildEnumerator hx has run)
  exact ⟨x, exposed.after named, has⟩

theorem built_enumeration (h : AtWork src budget e s) (pending : slot s e.offset = .pending none)
    (tag : e.tag = .enumerationType) (eq : (buildEnumeration src e).run s = (id, s')) :
    Built src e s s' (some id) := by
  obtain ⟨x, exposed, n, rfl, values⟩ := h.run_buildEnumeration pending eq
  refine exposed.built (by rw [tag]; rfl) (by nofun) (by simp) ?_
  simp only [Describes, tag]
  exact ⟨n, exposed.stands, values.imp fun _ _ value => value.value_eq⟩

/-- What a signature with the parameters of some children is like. -/
def HasParameters (src : Source) (e : Entry) (done : List Entry) (s : State) (x : Symbol) : Prop :=
  ∃ g, x = .signature g ∧ Refers src s e e g.returnType ∧
    List.Forall₂ (Refers src s e) (done.filter (·.tag = .formalParameter)) g.parameters.toList

theorem HasParameters.later {done : List Entry} {x : Symbol}
    (h : HasParameters src e done s x) (later : Later src s s') :
    HasParameters src e done s' x := by
  obtain ⟨g, hg, returns, parameters⟩ := h
  exact ⟨g, hg, returns.later later, parameters.imp fun _ _ h => h.later later⟩

theorem run_buildParameterType {done : List Entry} {c : Entry} {x : Symbol}
    (h : AtWork src budget e s) (answers : Answers src budget resolve) (hc : c ∈ e.children)
    (exposed : slot s e.offset ≠ .pending none) (hx : s.symbols.get? id = some x)
    (has : HasParameters src e done s x)
    (eq : (buildParameterType src resolve id c).run s = ((), s')) :
    Grows src ⟨none, [id], []⟩ s s' ∧
      ∃ y, s'.symbols.get? id = some y ∧ HasParameters src e (done ++ [c]) s' y := by
  unfold buildParameterType at eq
  split at eq
  · rename_i tag
    obtain ⟨type, s₁, htype, eq⟩ := run_bind_eq.1 eq
    cases eq
    obtain ⟨grows, refers⟩ := h.typeOf_exposed answers
      (Entry.mem_preorder_of_mem_children hc) exposed htype
    have inside := Symbol.Table.lt_size_of_get? hx
    refine ⟨(grows.within (by simpa using .inl inside)).trans
      (.touch (List.mem_singleton_self id) (.addParameter _ _ id)), ?_⟩
    obtain ⟨g, rfl, returns, parameters⟩ := has.later grows.later
    refine ⟨_, Symbol.Table.get?_addParameter (grows.get?_eq hx) _, _, rfl, returns, ?_⟩
    rw [filter_snoc_of_pos (decide_eq_true tag)]
    exact forall₂_push parameters refers
  · rename_i tag
    cases eq
    refine ⟨.refl s, x, hx, ?_⟩
    rw [HasParameters, filter_snoc_of_neg (decide_eq_false tag)]
    exact has

/-- The return type is asked for before the signature is exposed. -/
theorem run_buildSubroutineType (h : AtWork src budget e s)
    (pending : slot s e.offset = .pending none) (answers : Answers src budget resolve)
    (tag : e.tag = .subroutineType) (eq : (buildSubroutineType src resolve e).run s = (id, s')) :
    ∃ x, Exposed src e [id] s s' id x ∧ HasParameters src e e.children s' x := by
  have late : ExposesLate e.tag := .inr (.inr (.inl tag))
  obtain ⟨type, s₁, htype, eq⟩ := run_bind_eq.1 eq
  obtain ⟨grows, returns⟩ := h.typeOf answers e.mem_preorder
    (fun _ target htarget => .of_type late htarget) htype
  have pending₁ : slot s₁ e.offset = .pending none := by
    rw [grows.slot_eq h.asked, pending]
  obtain ⟨x, exposed, has⟩ := (h.grow grows).withParts pending₁ eq
    (P := HasParameters src e) nofun
    (fun s₂ later => ⟨_, rfl, returns.later later, .nil⟩)
    (fun done c id x s₂ s₃ hc work exposed hx has run =>
      work.run_buildParameterType answers hc exposed hx has run)
  exact ⟨x, exposed.after grows, has⟩

theorem built_subroutineType (h : AtWork src budget e s)
    (pending : slot s e.offset = .pending none) (answers : Answers src budget resolve)
    (tag : e.tag = .subroutineType) (eq : (buildSubroutineType src resolve e).run s = (id, s')) :
    Built src e s s' (some id) := by
  obtain ⟨x, exposed, g, rfl, returns, parameters⟩ :=
    h.run_buildSubroutineType pending answers tag eq
  refine exposed.built (by rw [tag]; rfl) (fun _ _ => tag) (by simp) ?_
  simp only [Describes, tag]
  exact ⟨g, exposed.stands, returns, parameters⟩

end AtWork
end Build
end Dwarf2
